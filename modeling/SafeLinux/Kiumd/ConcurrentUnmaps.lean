import SafeLinux.Effects.Threads
import SafeLinux.Kiumd.Reversal
import SafeLinux.Kiumd.UnmapCalls

/-!
# Unmap requests for one entry at the same time

An unmap ioctl looks its entry up under `smmu_lock`, releases what the entry records, and deletes
it under the lock again. Between the two sections another request can look the same entry up, and
then both release it (`concurrent_unmaps_release_twice`). As long as a request that has found the
entry returns before the next one finds it, the requests release it once in every interleaving
(`concurrent_unmaps_release_once`): `Custody` says that at most one request has it in hand.
-/

namespace SafeLinux.Kiumd

open Effects

/-! ## The actions of an unmap ioctl -/

/-- The entry that an action finds by the id in the table of the context. -/
def Act.finds (c : Nat) (id : U32) : Act → Option Nat
  | .find c' id' (some p) | .findMmio c' id' (some p) => if c' = c ∧ id' = id then some p else none
  | _ => none

/-- The action detaches a buffer or unmaps a region. -/
def Act.disconnects : Act → Bool
  | .detach _ _ | .unmapResource _ _ _ => true
  | _ => false

/-- The action drops the reference to a buffer. -/
def Act.puts : Act → Bool
  | .put _ => true
  | _ => false

/-- The action releases an entry or a part of what it records. -/
def Act.releases (act : Act) : Bool :=
  act.isDelete || act.disconnects || act.puts

/-- The actions that release the entry, in the order of each of the ioctls. -/
inductive ReleaseActs (c p : Nat) : List Act → Prop where
  | buffer (d : DmaBuf) (a : Attachment) : ReleaseActs c p [.delete c p, .detach d a, .put d]
  | secure (d : DmaBuf) (a : Attachment) : ReleaseActs c p [.detach d a, .put d, .delete c p]
  | mmio (dev : Device) (iova size : U64) :
      ReleaseActs c p [.unmapResource dev iova size, .deleteMmio c p]

/-- The actions and the result of an unmap ioctl: it fails and releases nothing, or it releases the
entry it has found. -/
inductive UnmapActs (c : Nat) (id : U32) : Shape Act Int where
  | failed {as : List Act} {result : Option Int} : result ≠ some 0 →
      (∀ act ∈ as, act.releases = false) → UnmapActs c id as result
  | done {head : Act} {p : Nat} {before release : List Act} : head.finds c id = some p →
      (∀ act ∈ before, act.releases = false) → ReleaseActs c p release →
      UnmapActs c id (head :: (before ++ release)) (some 0)

variable {c p : Nat} {id : U32} {as bs : List Act} {act : Act} {result : Option Int}

theorem Act.releases_of_isOpening (h : act.isOpening = true) : act.releases = false := by
  cases act <;> first | rfl | cases h

theorem Act.releases_of_isLooking (h : act.isLooking = true) : act.releases = false := by
  cases act <;> first | rfl | cases h

theorem Act.releases_of_isSgAssign (h : act.isSgAssign = true) : act.releases = false := by
  cases act <;> first | rfl | cases h

theorem Act.releases_of_finds (h : act.finds c id = some p) : act.releases = false := by
  cases act <;> first | rfl | cases h

@[simp] theorem find_finds : (Act.find c id (some p)).finds c id = some p := if_pos ⟨rfl, rfl⟩

@[simp] theorem findMmio_finds : (Act.findMmio c id (some p)).finds c id = some p :=
  if_pos ⟨rfl, rfl⟩

theorem UnmapActs.prepend {head : Act} (bs : List Act) (h : UnmapActs c id (head :: as) result)
    (hfinds : head.finds c id = some p) (hbs : ∀ act ∈ bs, act.releases = false) :
    UnmapActs c id (head :: (bs ++ as)) result := by
  have hhead := Act.releases_of_finds hfinds
  generalize hl : head :: as = l at h
  cases h with
  | failed hresult hnone =>
      subst hl
      obtain ⟨_, has⟩ := List.forall_mem_cons.mp hnone
      exact .failed hresult
        (List.forall_mem_cons.mpr ⟨hhead, List.forall_mem_append.mpr ⟨hbs, has⟩⟩)
  | done hfinds' hbefore hrelease =>
      cases hl
      rw [← List.append_assoc]
      exact .done hfinds' (List.forall_mem_append.mpr ⟨hbs, hbefore⟩) hrelease

theorem FinishShape.unmapActs {u : KiumdUser} {d : DmaBuf} {a : Attachment}
    (h : FinishShape u c p d a as result) :
    UnmapActs c u.id (.find c u.id (some p) :: as) result := by
  cases h with
  | undomained hresult hopening =>
      exact .failed hresult (List.forall_mem_cons.mpr ⟨rfl, fun act hact =>
        act.releases_of_isOpening (hopening act hact)⟩)
  | done hopening =>
      exact .done find_finds (fun act hact => act.releases_of_isOpening (hopening act hact))
        (.buffer d a)

theorem UnmappedShape.unmapActs {u : KiumdUser} {d : DmaBuf} {a : Attachment}
    (h : UnmappedShape u c p d a as result) :
    UnmapActs c u.id (.find c u.id (some p) :: as) result := by
  cases h with
  | failed hresult hacts =>
      refine .failed hresult (List.forall_mem_cons.mpr ⟨rfl, fun act hact => ?_⟩)
      rcases hacts act hact with hopening | ⟨data, rfl⟩
      · exact act.releases_of_isOpening hopening
      · rfl
  | privileged _ _ _ _ hfinish =>
      exact hfinish.unmapActs.prepend [.file _ _, .unmapSgtable _ _ _ _] find_finds
        (by simp [Act.releases, Act.isDelete, Act.disconnects, Act.puts])
  | attached _ _ _ hfinish =>
      exact hfinish.unmapActs.prepend [.read _ _, .unmapAttachment _ _ _] find_finds
        (by simp [Act.releases, Act.isDelete, Act.disconnects, Act.puts])
  | zeroFailed _ _ hresult hacts =>
      refine .failed hresult ?_
      refine List.forall_mem_cons.mpr ⟨rfl, List.forall_mem_cons.mpr ⟨rfl,
        List.forall_mem_cons.mpr ⟨rfl, fun act hact => ?_⟩⟩⟩
      rcases hacts act hact with hopening | ⟨dom, size, _, rfl⟩
      · exact act.releases_of_isOpening hopening
      · rfl
  | zero _ _ _ _ hfinish =>
      exact hfinish.unmapActs.prepend
        [.read _ _, .unmapAttachment _ _ _, .file _ _, .unmap _ _ _ _] find_finds
        (by simp [Act.releases, Act.isDelete, Act.disconnects, Act.puts])

theorem UnmapShape.unmapActs {u : KiumdUser} (h : UnmapShape u c as result) :
    UnmapActs c u.id as result := by
  cases h with
  | early hresult hacts => exact .failed hresult fun act hact => hacts act hact ▸ rfl
  | @found p _ _ _ hrelease =>
      cases hrelease with
      | empty hresult hacts =>
          refine .failed hresult (List.forall_mem_cons.mpr ⟨rfl, fun act hact => ?_⟩)
          obtain ⟨data, rfl⟩ := hacts act hact
          rfl
      | @buffer data data' d a _ _ _ _ hunmapped =>
          have hclear : ∀ act ∈ clearActs u.dmaAddr d.size u.ptselect, act.releases = false := by
            unfold clearActs
            split
            · exact List.forall_mem_singleton.mpr rfl
            · simp
          refine hunmapped.unmapActs.prepend
            (.read p data :: .read p data' :: clearActs u.dmaAddr d.size u.ptselect)
            find_finds ?_
          exact List.forall_mem_cons.mpr ⟨rfl, List.forall_mem_cons.mpr ⟨rfl, hclear⟩⟩

theorem TakeBackShape.unmapActs {vmids : List Int} {page : U64} {a : Attachment} {t : SgTable}
    (h : TakeBackShape c p vmids page a t as result) :
    UnmapActs c id (.find c id (some p) :: as) result := by
  have hassign : ∀ {back : List Act} {ret : Int},
      AssignShape (vmidMask vmids) hlosAlone t back (some ret) →
      ∀ act ∈ back, act.releases = false := fun hback act hact =>
    act.releases_of_isSgAssign (hback.isSgAssign act hact)
  cases h with
  | kept hret hback =>
      exact .failed (fun heq => Int.ne_of_lt hret (Option.some.inj heq))
        (List.forall_mem_cons.mpr ⟨rfl, hassign hback⟩)
  | half hresult hback _ hacts =>
      refine .failed (fun heq => hresult (Option.some.inj heq)) (List.forall_mem_cons.mpr
        ⟨rfl, List.forall_mem_append.mpr ⟨hassign hback, List.forall_mem_cons.mpr ⟨rfl, ?_⟩⟩⟩)
      rcases hacts with rfl | ⟨data, _, rfl⟩
      · simp
      · exact List.forall_mem_singleton.mpr rfl
  | @done back data d hback _ =>
      have hdone : UnmapActs c id
          (.find c id (some p) :: ([] ++ [.detach d a, .put d, .delete c p])) (some 0) :=
        .done find_finds (by simp) (.secure d a)
      have hbefore : ∀ act ∈ back ++ [unassignPage vmids page 0, .read p data],
          act.releases = false :=
        List.forall_mem_append.mpr ⟨hassign hback,
          List.forall_mem_cons.mpr ⟨rfl, List.forall_mem_singleton.mpr rfl⟩⟩
      have hacts := hdone.prepend _ find_finds hbefore
      rwa [List.append_assoc] at hacts

theorem SecureUnmapShape.unmapActs {u : KiumdUser} (h : SecureUnmapShape u c as result) :
    UnmapActs c u.id as result := by
  cases h with
  | early hresult hacts =>
      exact .failed hresult fun act hact => act.releases_of_isLooking (hacts act hact)
  | @found file v dev page entries p data data' a t acts result _ _ _ _ _ _ _ _ hback =>
      have hacl : ∀ act ∈ aclActs u.memParcel.aclList 0 entries, act.releases = false :=
        fun act hact => act.releases_of_isLooking
          (Act.isLooking_of_isAcl (aclActs_isAcl act hact))
      have hbefore : ∀ act ∈ .file u.vfioFd file :: .pgd dev.domain page ::
          (aclActs u.memParcel.aclList 0 entries ++
            [.read p data, .read p data', .unmapAttachment a t DMA_BIDIRECTIONAL]),
          act.releases = false := by
        refine List.forall_mem_cons.mpr ⟨rfl, List.forall_mem_cons.mpr ⟨rfl,
          List.forall_mem_append.mpr ⟨hacl, ?_⟩⟩⟩
        simp [Act.releases, Act.isDelete, Act.disconnects, Act.puts]
      have hfound : UnmapActs c u.id (.find c u.id (some p) :: acts) result := hback.unmapActs
      simpa using hfound.prepend _ find_finds hbefore

theorem MmioUnmapShape.unmapActs {u : KiumdSmmuMmioMap} (h : MmioUnmapShape u c as result) :
    UnmapActs c u.id as result := by
  cases h with
  | early hresult hacts =>
      refine .failed hresult fun act hact => ?_
      rcases hacts act hact with ⟨found, rfl⟩ | ⟨p, data, rfl⟩ <;> rfl
  | @done p m data mmio _ _ =>
      have hbefore : ∀ act ∈ [Act.read p data, .readMmio m mmio], act.releases = false := by
        simp [Act.releases, Act.isDelete, Act.disconnects, Act.puts]
      exact .done findMmio_finds hbefore (.mmio _ _ _)

/-! ### What releases -/

theorem ReleaseActs.delete_of_mem {release : List Act} (h : ReleaseActs c p release)
    (hact : act ∈ release) (hdelete : act.isDelete = true) :
    act = .delete c p ∨ act = .deleteMmio c p := by
  cases h <;> simp only [List.mem_cons, List.not_mem_nil, or_false] at hact
  · rcases hact with rfl | rfl | rfl
    · exact .inl rfl
    · cases hdelete
    · cases hdelete
  · rcases hact with rfl | rfl | rfl
    · cases hdelete
    · cases hdelete
    · exact .inl rfl
  · rcases hact with rfl | rfl
    · cases hdelete
    · exact .inr rfl

theorem ReleaseActs.exists_delete {release : List Act} (h : ReleaseActs c p release) :
    ∃ act ∈ release, act.isDelete = true := by
  cases h with
  | buffer d a => exact ⟨.delete c p, by simp, rfl⟩
  | secure d a => exact ⟨.delete c p, by simp, rfl⟩
  | mmio dev iova size => exact ⟨.deleteMmio c p, by simp, rfl⟩

theorem ReleaseActs.counts {release : List Act} (h : ReleaseActs c p release) :
    release.countP Act.isDelete ≤ 1 ∧ release.countP Act.disconnects ≤ 1 ∧
      release.countP Act.puts ≤ 1 := by
  cases h with
  | buffer | secure => exact ⟨le_refl 1, le_refl 1, le_refl 1⟩
  | mmio => exact ⟨le_refl 1, le_refl 1, Nat.zero_le 1⟩

/-- An action that releases comes after the entry has been found. -/
theorem UnmapActs.releases_after (h : UnmapActs c id (as ++ act :: bs) result)
    (hreleases : act.releases = true) :
    ∃ p, (∃ head ∈ as, head.finds c id = some p) ∧
      (act.isDelete = true → act = .delete c p ∨ act = .deleteMmio c p) := by
  generalize hl : as ++ act :: bs = l at h
  cases h with
  | failed _ hnone =>
      subst hl
      rw [hnone act (List.mem_append_right _ List.mem_cons_self)] at hreleases
      cases hreleases
  | @done head p before release hfinds hbefore hrelease =>
      cases as with
      | nil =>
          obtain ⟨rfl, -⟩ := List.cons_eq_cons.mp hl
          rw [Act.releases_of_finds hfinds] at hreleases
          cases hreleases
      | cons first as =>
          obtain ⟨rfl, htail⟩ := List.cons_eq_cons.mp hl
          refine ⟨p, ⟨first, List.mem_cons_self, hfinds⟩, fun hdelete => ?_⟩
          have hact : act ∈ before ++ release := by
            rw [← htail]
            exact List.mem_append_right _ List.mem_cons_self
          rcases List.mem_append.mp hact with hact | hact
          · rw [hbefore act hact] at hreleases
            cases hreleases
          · exact hrelease.delete_of_mem hact hdelete

/-- A request that has returned and released something has deleted the entry. -/
theorem UnmapActs.exists_delete (h : UnmapActs c id as result)
    (hreleases : result = some 0 ∨ ∃ act ∈ as, act.releases = true) :
    ∃ act ∈ as, act.isDelete = true := by
  cases h with
  | failed hresult hnone =>
      rcases hreleases with rfl | ⟨act, hact, hreleases⟩
      · exact absurd rfl hresult
      · rw [hnone act hact] at hreleases
        cases hreleases
  | done _ _ hrelease =>
      obtain ⟨act, hact, hdelete⟩ := hrelease.exists_delete
      exact ⟨act, List.mem_cons_of_mem _ (List.mem_append_right _ hact), hdelete⟩

/-- A request releases each part of an entry once, as far as it has come. -/
theorem UnmapActs.count_le {test : Act → Bool} (h : UnmapActs c id (as ++ bs) result)
    (htest : ∀ act, test act = true → act.releases = true)
    (hrelease : ∀ p release, ReleaseActs c p release → release.countP test ≤ 1) :
    as.countP test ≤ 1 := by
  have hnone : ∀ {l : List Act}, (∀ act ∈ l, act.releases = false) → l.countP test = 0 := by
    intro l hl
    refine List.countP_eq_zero.mpr fun act hact hact' => ?_
    have hreleases := htest act hact'
    rw [hl act hact] at hreleases
    cases hreleases
  have hle : as.countP test ≤ (as ++ bs).countP test := by
    rw [List.countP_append]
    omega
  refine hle.trans ?_
  generalize as ++ bs = l at h
  cases h with
  | failed _ hacts =>
      rw [hnone hacts]
      exact Nat.zero_le 1
  | @done head p before release hfinds hbefore hacts =>
      have hhead : [head].countP test = 0 :=
        hnone (List.forall_mem_singleton.mpr (Act.releases_of_finds hfinds))
      have hsum : (head :: (before ++ release)).countP test =
          [head].countP test + (before.countP test + release.countP test) := by
        rw [← List.countP_append, ← List.countP_append]
        rfl
      have hone := hrelease p release hacts
      rw [hsum, hhead, hnone hbefore]
      omega

/-- The id an unmap request names. -/
def Request.unmapsId : Request → Option U32
  | .unmapBuf kiusr | .secureUnmap kiusr => some kiusr.id
  | .mmioUnmap kiusr => some kiusr.id
  | .mapBuf _ | .secureMap _ | .mmioMap _ _ => none

variable {r : Request}

/-- What an unmap ioctl can do. -/
theorem kiumdIoctl_unmapActs (hid : r.unmapsId = some id) :
    Shows (kiumdIoctl ⟨c, r⟩) (UnmapActs c id) := by
  cases r <;> cases hid
  · exact kiumdDmabufVfioUnmap_shows.mono fun _ _ h => h.unmapActs
  · exact kiumdDmabufVfioSecureUnmap_shows.mono fun _ _ h => h.unmapActs
  · exact kiumdMmioSmmuUnmap_shows.mono fun _ _ h => h.unmapActs

theorem kiumdIoctl_unmaps (hid : r.unmapsId = some id) : (kiumdIoctl ⟨c, r⟩).Only UnmapCall := by
  cases r <;> cases hid
  · show (kiumdDmabufVfioUnmap _ (some (some c))).Only UnmapCall
    exact kiumdDmabufVfioUnmap_unmaps
  · show (kiumdDmabufVfioSecureUnmap _ (some (some c))).Only UnmapCall
    exact kiumdDmabufVfioSecureUnmap_unmaps
  · show (kiumdMmioSmmuUnmap _ (some (some c))).Only UnmapCall
    exact kiumdMmioSmmuUnmap_unmaps

/-! ## The entries with an id -/

/-- The entries of the context that have the id. -/
def World.withId (w : World) (c : Nat) (id : U32) : List Nat :=
  (w.table c).filter fun p => (w.smaps p).id == id

section

variable {β : Type} {request : KCall β} {answer : β} {w w' : World}

/-- An entry that an unmap ioctl finds by the id has it. -/
theorem finds_step (hunmaps : UnmapCall β request) (hstep : kernelStep request w answer = some w')
    (hact : act ∈ request.act answer) (hfinds : act.finds c id = some p) :
    p ∈ w.withId c id := by
  have hmem : ∀ {test : SmmuMapData → Bool}, some p = w.find c test →
      (test (w.smaps p) = true → (w.smaps p).id = id) → p ∈ w.withId c id := by
    intro test hfound hid
    have htest := List.find?_some hfound.symm
    exact List.mem_filter.mpr ⟨List.mem_of_find?_eq_some hfound.symm, beq_iff_eq.mpr (hid htest)⟩
  cases request
  case smmuFind c' id' | smmuFindMmio c' id' =>
    cases hact
    cases answer with
    | none => cases hfinds
    | some q =>
        simp only [Act.finds, Option.ite_none_right_eq_some, Option.some.injEq] at hfinds
        obtain ⟨⟨rfl, rfl⟩, rfl⟩ := hfinds
        simp only [kernelStep, Option.ite_none_right_eq_some] at hstep
        exact hmem hstep.1 (by simp +contextual)
  all_goals
    first
      | (cases hunmaps; done)
      | (cases hact <;> cases hfinds)
      | (cases answer <;> cases hact; cases hfinds)

/-- An unmap ioctl leaves the entries with the id alone, but for a deletion. -/
theorem withId_step (hunmaps : UnmapCall β request)
    (hstep : kernelStep request w answer = some w') :
    ((∀ p, request.act answer ≠ some (.delete c p) ∧ request.act answer ≠ some (.deleteMmio c p)) ∧
      w'.withId c id = w.withId c id) ∨
    ∃ p, (request.act answer = some (.delete c p) ∨ request.act answer = some (.deleteMmio c p)) ∧
      w'.withId c id = (w.withId c id).erase p := by
  have hsmaps := hunmaps.smaps hstep
  have herase : ∀ {c' q : Nat}, w'.table = Function.update w.table c' ((w.table c').erase q) →
      c' ≠ c ∧ w'.withId c id = w.withId c id ∨
        c' = c ∧ w'.withId c id = (w.withId c id).erase q := by
    intro c' q htable
    simp only [World.withId, htable, hsmaps]
    by_cases hc : c' = c
    · subst hc
      rw [Function.update_self, List.erase_filter]
      exact .inr ⟨rfl, rfl⟩
    · rw [Function.update_of_ne (Ne.symm hc)]
      exact .inl ⟨hc, rfl⟩
  by_cases hctxs : Field.ctxs ∈ request.writes
  swap
  · have htable : w'.ctxs = w.ctxs := step_agrees hstep hctxs
    refine .inl ⟨fun p => ?_, by simp only [World.withId, World.table, hsmaps, htable]⟩
    constructor
    all_goals
      intro hact
      cases request
      all_goals
        first
          | (cases hunmaps; done)
          | (simp [KCall.writes] at hctxs; done)
          | cases hact
          | (cases answer <;> cases hact)
  cases request with
  | smmuDel c' q =>
      cases hstep
      rcases herase (w.table_unlink c' q) with ⟨hc, heq⟩ | ⟨rfl, heq⟩
      · refine .inl ⟨fun p => ⟨?_, fun h => by cases h⟩, heq⟩
        rintro ⟨⟩
        exact hc rfl
      · exact .inr ⟨q, .inl rfl, heq⟩
  | smmuDelMmio c' q =>
      have htable : w'.table = Function.update w.table c' ((w.table c').erase q) := by
        simp only [kernelStep] at hstep
        split at hstep <;> cases hstep <;> exact w.table_unlink c' q
      rcases herase htable with ⟨hc, heq⟩ | ⟨rfl, heq⟩
      · refine .inl ⟨fun p => ⟨fun h => (by cases h), ?_⟩, heq⟩
        rintro ⟨⟩
        exact hc rfl
      · exact .inr ⟨q, .inr rfl, heq⟩
  | _ => first | (cases hunmaps; done) | simp [KCall.writes] at hctxs

theorem withId_sublist (hunmaps : UnmapCall β request)
    (hstep : kernelStep request w answer = some w') :
    (w'.withId c id).Sublist (w.withId c id) := by
  rcases withId_step hunmaps hstep with ⟨-, heq⟩ | ⟨p, -, heq⟩
  · rw [heq]
  · rw [heq]
    exact List.erase_sublist

/-- The deletion of the only entry with the id. -/
theorem withId_delete (hunmaps : UnmapCall β request)
    (hstep : kernelStep request w answer = some w') (hsole : (w.withId c id).length ≤ 1)
    (hp : p ∈ w.withId c id) (hact : act ∈ request.act answer)
    (hdelete : act = .delete c p ∨ act = .deleteMmio c p) : w'.withId c id = [] := by
  rcases @withId_step c id _ _ _ _ _ hunmaps hstep with ⟨hnone, -⟩ | ⟨q, hq, heq⟩
  · rcases hdelete with rfl | rfl
    · exact absurd hact (hnone p).1
    · exact absurd hact (hnone p).2
  · obtain rfl : q = p := by
      rw [Option.mem_def] at hact
      rw [hact] at hq
      rcases hdelete with rfl | rfl <;> rcases hq with hq | hq <;> cases hq <;> rfl
    obtain ⟨q', hq'⟩ : ∃ q', w.withId c id = [q'] :=
      List.length_eq_one_iff.mp (le_antisymm hsole (List.length_pos_of_mem hp))
    rw [hq'] at hp heq
    obtain rfl := List.mem_singleton.mp hp
    rw [heq]
    simp

end

/-! ## Requests in threads -/

/-- What the threads share: the state of the kernel, and what each thread has done. -/
structure UnmapShared (τ : Type) where
  world : World
  acts : τ → List Act
  returned : τ → Option Int

def UnmapShared.fresh {τ : Type} (w : World) : UnmapShared τ := ⟨w, fun _ => [], fun _ => none⟩

/-- A thread has made a call that has led to the state `w`. -/
def UnmapShared.did {τ : Type} [DecidableEq τ] (s : UnmapShared τ) (t : τ) (w : World)
    (act : Option Act) : UnmapShared τ :=
  { s with world := w, acts := Function.update s.acts t (s.acts t ++ act.toList) }

/-- Each thread makes one request on the context. -/
def unmapSystem {τ : Type} [DecidableEq τ] (c : Nat) (requests : τ → Request) :
    System τ Request KCall (UnmapShared τ) Int where
  semantics t := ⟨fun request s answer =>
    (kernelStep request s.world answer).map fun w => s.did t w (request.act answer)⟩
  program r := kiumdIoctl ⟨c, r⟩
  start P t r s := r = requests t ∧ P.shared.returned t = none ∧ s = P.shared
  finish t _ result s := { s with returned := Function.update s.returned t (some result) }

abbrev UnmapPool (τ : Type) := Pool τ Request KCall (UnmapShared τ) Int

variable {τ : Type}

/-- The thread has found an entry by the id and has not returned. -/
def UnmapShared.Inside (s : UnmapShared τ) (c : Nat) (id : U32) (t : τ) : Prop :=
  (∃ act ∈ s.acts t, (act.finds c id).isSome) ∧ s.returned t = none

/-- The condition that a thread finds an entry by the id only when no other one that has found one
has still to return. -/
def FindsAlone (c : Nat) (id : U32) (P : UnmapPool τ) (m : Move τ Request KCall) : Prop :=
  ∀ t e, m = .call t e → (∃ act ∈ e.call.act e.answer, (act.finds c id).isSome) →
    ∀ u, u ≠ t → ¬ P.shared.Inside c id u

/-- At most one of the two requests has succeeded, and in total at most one entry was deleted, one
attachment detached or region unmapped, and one reference to a buffer dropped. -/
structure ReleasesOnce (s : UnmapShared Bool) : Prop where
  succeeds : ¬ (s.returned true = some 0 ∧ s.returned false = some 0)
  deletes : (s.acts true ++ s.acts false).countP Act.isDelete ≤ 1
  detaches : (s.acts true ++ s.acts false).countP Act.disconnects ≤ 1
  puts : (s.acts true ++ s.acts false).countP Act.puts ≤ 1

/-! ## One thread at a time -/

/-- The thread has an entry in hand, or has released a part of one. -/
def UnmapShared.Holds (s : UnmapShared τ) (c : Nat) (id : U32) (t : τ) : Prop :=
  s.Inside c id t ∨ ∃ act ∈ s.acts t, act.releases = true

/-- At most one thread has the entry in hand, and once it is deleted there is none left. -/
structure Custody (c : Nat) (id : U32) (s : UnmapShared τ) : Prop where
  sole : (s.world.withId c id).length ≤ 1
  found : ∀ t, ∀ act ∈ s.acts t, ∀ p, act.finds c id = some p →
    p ∈ s.world.withId c id ∨ ∃ u, ∃ act ∈ s.acts u, act.isDelete = true
  deleted : ∀ t, ∀ act ∈ s.acts t, act.isDelete = true → s.world.withId c id = []
  alone : ∀ t u, s.Holds c id t → s.Holds c id u → t = u

/-- What an idle thread has done. -/
def UnmapIdle (c : Nat) (id : U32) (t : τ) (s : UnmapShared τ) : Prop :=
  match s.returned t with
  | none => s.acts t = []
  | some result => UnmapActs c id (s.acts t) (some result)

/-- What a thread has done and has left to do. -/
structure UnmapBusy (c : Nat) (id : U32) (t : τ) (p : KProg Int) (s : UnmapShared τ) : Prop where
  pending : s.returned t = none
  unmaps : p.Only UnmapCall
  shows : Shows p fun as result => UnmapActs c id (s.acts t ++ as) result

section Invariant

variable {c : Nat} {id : U32} {s : UnmapShared τ} {P : UnmapPool τ} {t u : τ}

/-- What a thread has done can become what an unmap ioctl does. -/
theorem unmapActs_extends
    (heach : P.Each (UnmapIdle c id) fun t _ p s => UnmapBusy c id t p s) (t : τ) :
    ∃ rest result, UnmapActs c id (P.shared.acts t ++ rest) result := by
  cases hrunning : P.running t with
  | none =>
      have hidle := heach.idle t hrunning
      unfold UnmapIdle at hidle
      split at hidle
      · rw [hidle]
        exact ⟨[], none, .failed (Option.some_ne_none 0).symm (by simp)⟩
      · rename_i result _
        exact ⟨[], some result, by rwa [List.append_nil]⟩
  | some job =>
      have hbusy := heach.busy t job.1 job.2 hrunning
      obtain ⟨trace, result, w', hexec⟩ := kernel_responsive.exec job.2 P.shared.world
      exact ⟨_, _, hbusy.shows.exec driver_admits hexec⟩

/-- A thread that has returned is idle. -/
theorem unmapActs_returned
    (heach : P.Each (UnmapIdle c id) fun t _ p s => UnmapBusy c id t p s) {result : Int}
    (hreturned : P.shared.returned t = some result) :
    UnmapActs c id (P.shared.acts t) (some result) := by
  cases hrunning : P.running t with
  | none =>
      have hidle := heach.idle t hrunning
      unfold UnmapIdle at hidle
      rwa [hreturned] at hidle
  | some job =>
      have hpending := (heach.busy t job.1 job.2 hrunning).pending
      rw [hreturned] at hpending
      cases hpending

/-- A thread that has released something and is no longer inside has deleted the entry. -/
theorem Custody.deleted_of_returned (h : Custody c id s)
    (hextends : ∀ u, ∃ rest result, UnmapActs c id (s.acts u ++ rest) result)
    (hreturned : ∀ u result, s.returned u = some result → UnmapActs c id (s.acts u) (some result))
    (hout : ¬ s.Inside c id u) {act : Act} (hact : act ∈ s.acts u)
    (hreleases : act.releases = true) : s.world.withId c id = [] := by
  obtain ⟨first, last, hacts⟩ := List.append_of_mem hact
  obtain ⟨rest, result, hrest⟩ := hextends u
  rw [hacts, List.append_assoc, List.cons_append] at hrest
  obtain ⟨p, ⟨head, hhead, hfinds⟩, -⟩ := hrest.releases_after hreleases
  have hhead' : head ∈ s.acts u := by
    rw [hacts]
    exact List.mem_append_left _ hhead
  cases hvalue : s.returned u with
  | none => exact absurd ⟨⟨head, hhead', by rw [hfinds]; rfl⟩, hvalue⟩ hout
  | some value =>
      obtain ⟨act', hact', hdelete⟩ :=
        (hreturned u value hvalue).exists_delete (.inr ⟨act, hact, hreleases⟩)
      exact h.deleted u act' hact' hdelete

section

variable [DecidableEq τ] {β : Type} {request : KCall β} {answer : β} {w' : World} {new : Option Act}
  {act : Act}

theorem UnmapShared.did_acts_self : (s.did t w' new).acts t = s.acts t ++ new.toList :=
  Function.update_self ..

theorem UnmapShared.did_acts_of_ne (hu : u ≠ t) : (s.did t w' new).acts u = s.acts u :=
  Function.update_of_ne hu _ _

/-- What has been done after a call is what had been done before it, and its action. -/
theorem UnmapShared.mem_did :
    act ∈ (s.did t w' new).acts u ↔ act ∈ s.acts u ∨ u = t ∧ act ∈ new := by
  by_cases hu : u = t
  · subst hu
    simp only [UnmapShared.did_acts_self, List.mem_append, Option.mem_toList, Option.mem_def,
      true_and]
  · simp only [UnmapShared.did_acts_of_ne hu, hu, false_and, or_false]

/-- What the other threads have in hand is what they had before. -/
theorem UnmapShared.did_holds (hu : u ≠ t) : (s.did t w' new).Holds c id u ↔ s.Holds c id u := by
  rw [UnmapShared.Holds, UnmapShared.Holds, UnmapShared.Inside, UnmapShared.Inside,
    UnmapShared.did_acts_of_ne hu]
  rfl

omit [DecidableEq τ] in
/-- A call that releases something is one of the thread that has found the entry. -/
theorem finder_of_releases
    (hnext : ∃ rest result, UnmapActs c id (s.acts t ++ (new.toList ++ rest)) result)
    (hact : act ∈ new) (hreleases : act.releases = true) :
    ∃ p, (∃ head ∈ s.acts t, head.finds c id = some p) ∧
      (act.isDelete = true → act = .delete c p ∨ act = .deleteMmio c p) := by
  obtain ⟨rest, result, hrest⟩ := hnext
  rw [Option.mem_def] at hact
  subst hact
  exact UnmapActs.releases_after hrest hreleases

omit [DecidableEq τ] in
/-- After a thread has deleted the entry, there is none left. -/
theorem Custody.deletes (h : Custody c id s) (hunmaps : UnmapCall β request)
    (hnext : ∃ rest result,
      UnmapActs c id (s.acts t ++ ((request.act answer).toList ++ rest)) result)
    (hstep : kernelStep request s.world answer = some w') (hact : act ∈ request.act answer)
    (hdelete : act.isDelete = true) : w'.withId c id = [] := by
  obtain ⟨p, ⟨head, hhead, hfinds⟩, hcases⟩ :=
    finder_of_releases hnext hact (by simp [Act.releases, hdelete])
  rcases h.found t head hhead p hfinds with hp | ⟨u, act', hact', hdelete'⟩
  · exact withId_delete hunmaps hstep h.sole hp hact (hcases hdelete)
  · have hsublist := @withId_sublist c id _ _ _ _ _ hunmaps hstep
    rw [h.deleted u act' hact' hdelete'] at hsublist
    exact List.sublist_nil.mp hsublist

/-- A thread that has the entry in hand after a call had it before or has found it, and no other
thread has it. -/
theorem Custody.holder (h : Custody c id s)
    (hextends : ∀ u, ∃ rest result, UnmapActs c id (s.acts u ++ rest) result)
    (hreturned : ∀ u result, s.returned u = some result → UnmapActs c id (s.acts u) (some result))
    (hpending : s.returned t = none) (hunmaps : UnmapCall β request)
    (hnext : ∃ rest result,
      UnmapActs c id (s.acts t ++ ((request.act answer).toList ++ rest)) result)
    (hstep : kernelStep request s.world answer = some w')
    (halone : (∃ act ∈ request.act answer, (act.finds c id).isSome) →
      ∀ u, u ≠ t → ¬ s.Inside c id u)
    (ht : (s.did t w' (request.act answer)).Holds c id t) (hu : u ≠ t) : ¬ s.Holds c id u := by
  have hbefore : s.Holds c id t ∨ ∃ act ∈ request.act answer, (act.finds c id).isSome := by
    rcases ht with ⟨⟨act, hact, hfinds⟩, -⟩ | ⟨act, hact, hreleases⟩
    · rcases UnmapShared.mem_did.mp hact with hact | ⟨-, hact⟩
      · exact .inl (.inl ⟨⟨act, hact, hfinds⟩, hpending⟩)
      · exact .inr ⟨act, hact, hfinds⟩
    · rcases UnmapShared.mem_did.mp hact with hact | ⟨-, hact⟩
      · exact .inl (.inr ⟨act, hact, hreleases⟩)
      · obtain ⟨p, ⟨head, hhead, hfinds⟩, -⟩ := finder_of_releases hnext hact hreleases
        exact .inl (.inl ⟨⟨head, hhead, by rw [hfinds]; rfl⟩, hpending⟩)
  intro hu'
  rcases hbefore with ht' | hfound
  · exact hu (h.alone u t hu' ht')
  · have hout := halone hfound u hu
    rcases hu' with hinside | ⟨act, hact, hreleases⟩
    · exact hout hinside
    · obtain ⟨found, hfound, hsome⟩ := hfound
      obtain ⟨p, hp⟩ := Option.isSome_iff_exists.mp hsome
      have hentry := finds_step hunmaps hstep hfound hp
      rw [h.deleted_of_returned hextends hreturned hout hact hreleases] at hentry
      cases hentry

/-- A call of a thread leaves the entry in the hand of one thread. -/
theorem Custody.call (h : Custody c id s)
    (hextends : ∀ u, ∃ rest result, UnmapActs c id (s.acts u ++ rest) result)
    (hreturned : ∀ u result, s.returned u = some result → UnmapActs c id (s.acts u) (some result))
    (hpending : s.returned t = none) (hunmaps : UnmapCall β request)
    (hnext : ∃ rest result,
      UnmapActs c id (s.acts t ++ ((request.act answer).toList ++ rest)) result)
    (hstep : kernelStep request s.world answer = some w')
    (halone : (∃ act ∈ request.act answer, (act.finds c id).isSome) →
      ∀ u, u ≠ t → ¬ s.Inside c id u) :
    Custody c id (s.did t w' (request.act answer)) := by
  have hsublist := @withId_sublist c id _ _ _ _ _ hunmaps hstep
  have hkeeps : ∀ {p : Nat}, p ∈ s.world.withId c id → p ∈ w'.withId c id ∨
      ∃ u, ∃ act ∈ (s.did t w' (request.act answer)).acts u, act.isDelete = true := by
    intro p hp
    rcases @withId_step c id _ _ _ _ _ hunmaps hstep with ⟨-, heq⟩ | ⟨q, hq, -⟩
    · rw [heq]
      exact .inl hp
    · rcases hq with hq | hq
      · exact .inr ⟨t, _, UnmapShared.mem_did.mpr (.inr ⟨rfl, hq⟩), rfl⟩
      · exact .inr ⟨t, _, UnmapShared.mem_did.mpr (.inr ⟨rfl, hq⟩), rfl⟩
  have hholder : ∀ {u : τ}, (s.did t w' (request.act answer)).Holds c id t → u ≠ t →
      ¬ (s.did t w' (request.act answer)).Holds c id u := by
    intro u ht hu hu'
    exact h.holder hextends hreturned hpending hunmaps hnext hstep halone ht hu
      ((UnmapShared.did_holds hu).mp hu')
  constructor
  · exact hsublist.length_le.trans h.sole
  · intro u act hact p hfinds
    rcases UnmapShared.mem_did.mp hact with hact | ⟨-, hact⟩
    · rcases h.found u act hact p hfinds with hp | ⟨v, act', hact', hdelete'⟩
      · exact hkeeps hp
      · exact .inr ⟨v, act', UnmapShared.mem_did.mpr (.inl hact'), hdelete'⟩
    · exact hkeeps (finds_step hunmaps hstep hact hfinds)
  · intro u act hact hdelete
    show w'.withId c id = []
    rcases UnmapShared.mem_did.mp hact with hact | ⟨-, hact⟩
    · rw [h.deleted u act hact hdelete] at hsublist
      exact List.sublist_nil.mp hsublist
    · exact h.deletes hunmaps hnext hstep hact hdelete
  · intro u v hu hv
    by_cases hut : u = t
    · subst hut
      by_contra hne
      exact hholder hu (Ne.symm hne) hv
    · by_cases hvt : v = t
      · subst hvt
        exact absurd hu (hholder hv hut)
      · exact h.alone u v ((UnmapShared.did_holds hut).mp hu) ((UnmapShared.did_holds hvt).mp hv)

end

/-- A thread that returns gives up what it has in hand. -/
theorem Custody.finish [DecidableEq τ] (h : Custody c id s) (result : Int) :
    Custody c id { s with returned := Function.update s.returned t (some result) } := by
  have hholds : ∀ u, UnmapShared.Holds { s with
      returned := Function.update s.returned t (some result) } c id u → s.Holds c id u := by
    intro u hu
    refine hu.imp (fun hinside => ⟨hinside.1, ?_⟩) fun hreleases => hreleases
    have hnone : Function.update s.returned t (some result) u = none := hinside.2
    by_cases hut : u = t
    · rw [hut, Function.update_self] at hnone
      cases hnone
    · rwa [Function.update_of_ne hut] at hnone
  exact ⟨h.sole, h.found, h.deleted, fun u v hu hv => h.alone u v (hholds u hu) (hholds v hv)⟩

variable [DecidableEq τ] {requests : τ → Request}

/-- A thread that has come to a program it has left to do. -/
theorem Custody.resume {r : Request} {p : KProg Int}
    (heach : P.Each (UnmapIdle c id) fun t _ p s => UnmapBusy c id t p s)
    (hbusy : UnmapBusy c id t p s) (hcustody : Custody c id s)
    (hothers : ∀ u, u ≠ t → s.acts u = P.shared.acts u ∧ s.returned u = P.shared.returned u) :
    ((unmapSystem c requests).resume P.running t r p s).Each (UnmapIdle c id)
        (fun t _ p s => UnmapBusy c id t p s) ∧
      Custody c id ((unmapSystem c requests).resume P.running t r p s).shared := by
  have hidle : ∀ {s' : UnmapShared τ} {u : τ}, s'.acts u = P.shared.acts u →
      s'.returned u = P.shared.returned u → UnmapIdle c id u P.shared → UnmapIdle c id u s' := by
    intro s' u hacts hreturned h
    unfold UnmapIdle at h ⊢
    rwa [hacts, hreturned]
  have hstill : ∀ {s' : UnmapShared τ} {u : τ} {q : KProg Int}, s'.acts u = P.shared.acts u →
      s'.returned u = P.shared.returned u → UnmapBusy c id u q P.shared →
      UnmapBusy c id u q s' := by
    intro s' u q hacts hreturned h
    refine ⟨hreturned.trans h.pending, h.unmaps, ?_⟩
    rw [hacts]
    exact h.shows
  cases p with
  | ret result =>
      have hreturned : ∀ u, u ≠ t →
          Function.update s.returned t (some result) u = P.shared.returned u := fun u hu =>
        (Function.update_of_ne hu _ _).trans (hothers u hu).2
      refine ⟨heach.resume rfl ?_ (fun _ _ _ hcall => nomatch hcall) ?_ ?_,
        hcustody.finish result⟩
      · intro value hvalue
        cases hvalue
        have hacts : UnmapActs c id (s.acts t ++ []) (some result) := hbusy.shows
        show match Function.update s.returned t (some result) t with
          | none => s.acts t = []
          | some result => UnmapActs c id (s.acts t) (some result)
        rw [Function.update_self]
        rwa [List.append_nil] at hacts
      · exact fun u hu h => hidle (hothers u hu).1 (hreturned u hu) h
      · exact fun u hu _ q h => hstill (hothers u hu).1 (hreturned u hu) h
  | call request next =>
      refine ⟨heach.resume rfl (fun _ hret => nomatch hret) (fun _ _ _ _ => hbusy) ?_ ?_,
        hcustody⟩
      · exact fun u hu h => hidle (hothers u hu).1 (hothers u hu).2 h
      · exact fun u hu _ q h => hstill (hothers u hu).1 (hothers u hu).2 h

/-- In every interleaving in which the entry is found by one thread at a time, it stays in the hand
of one. -/
theorem custody_of_reach {w : World} (hids : ∀ t, (requests t).unmapsId = some id)
    (hsole : (w.withId c id).length ≤ 1)
    (h : (unmapSystem c requests).Reach (FindsAlone c id) (.quiet (.fresh w)) P) :
    P.Each (UnmapIdle c id) (fun t _ p s => UnmapBusy c id t p s) ∧ Custody c id P.shared := by
  refine h.invariant (fun P => P.Each (UnmapIdle c id) (fun t _ p s => UnmapBusy c id t p s) ∧
    Custody c id P.shared) ⟨Pool.each_quiet fun _ => rfl, hsole, ?_, ?_, ?_⟩ ?_
  · exact fun _ _ hact => absurd hact List.not_mem_nil
  · exact fun _ _ hact => absurd hact List.not_mem_nil
  · rintro t u (⟨⟨act, hact, -⟩, -⟩ | ⟨act, hact, -⟩) <;> exact absurd hact List.not_mem_nil
  · rintro P m P' ⟨heach, hcustody⟩ hstep hok
    cases hstep with
    | @start t r s hrunning hstart =>
        obtain ⟨rfl, hpending, rfl⟩ := hstart
        have hnone := heach.idle t hrunning
        rw [UnmapIdle, hpending] at hnone
        refine Custody.resume heach ⟨hpending, kiumdIoctl_unmaps (hids t), ?_⟩ hcustody
          fun _ _ => ⟨rfl, rfl⟩
        rw [hnone]
        exact kiumdIoctl_unmapActs (hids t)
    | @call t r β request next answer s hrunning hcall =>
        obtain ⟨w', hkernel, rfl⟩ := Option.map_eq_some_iff.mp hcall
        obtain ⟨hpending, honly, hshows⟩ := heach.busy t r _ hrunning
        obtain ⟨hunmaps, hrest⟩ : UnmapCall β request ∧ ∀ answer, (next answer).Only UnmapCall := by
          cases honly with
          | call hkind hrest => exact ⟨hkind, hrest⟩
        have hnext := hshows.2 answer (driver_admits _ _ _ _ hkernel)
        obtain ⟨trace, result, w'', hexec⟩ := kernel_responsive.exec (next answer) w'
        have hcustody' := hcustody.call (unmapActs_extends heach)
          (fun u _ => unmapActs_returned heach) hpending hunmaps
          ⟨_, _, hnext.exec driver_admits hexec⟩ hkernel fun hfound => hok t _ rfl hfound
        refine Custody.resume heach ⟨hpending, hrest answer, ?_⟩ hcustody' fun u hu =>
          ⟨UnmapShared.did_acts_of_ne hu, rfl⟩
        rw [UnmapShared.did_acts_self]
        refine hnext.mono fun as result hacts => ?_
        rw [List.append_assoc]
        exact hacts

end Invariant

/-! ## Two requests -/

/-- In every interleaving of two unmap requests for an id that at most one entry of the context has,
in which a request finds the entry only when the other one has not found it or has returned, the
entry is released once. -/
theorem concurrent_unmaps_release_once {w : World} {c : Nat} {id : U32} {requests : Bool → Request}
    {P : UnmapPool Bool} (hids : ∀ t, (requests t).unmapsId = some id)
    (hsole : (w.withId c id).length ≤ 1)
    (h : (unmapSystem c requests).Reach (FindsAlone c id) (.quiet (.fresh w)) P) :
    ReleasesOnce P.shared := by
  obtain ⟨heach, hcustody⟩ := custody_of_reach hids hsole h
  have hextends := unmapActs_extends heach
  have hheld : ∀ t, P.shared.returned t = some 0 → P.shared.Holds c id t := by
    intro t ht
    obtain ⟨act, hact, hdelete⟩ := (unmapActs_returned heach ht).exists_delete (.inl rfl)
    exact .inr ⟨act, hact, by simp [Act.releases, hdelete]⟩
  have hcount : ∀ test : Act → Bool, (∀ act, test act = true → act.releases = true) →
      (∀ p release, ReleaseActs c p release → release.countP test ≤ 1) →
      (P.shared.acts true ++ P.shared.acts false).countP test ≤ 1 := by
    intro test htest hrelease
    have hone : ∀ t, (P.shared.acts t).countP test ≤ 1 := by
      intro t
      obtain ⟨rest, result, hacts⟩ := hextends t
      exact hacts.count_le htest hrelease
    have hholds : ∀ t, 0 < (P.shared.acts t).countP test → P.shared.Holds c id t := by
      intro t ht
      obtain ⟨act, hact, hact'⟩ := List.countP_pos_iff.mp ht
      exact .inr ⟨act, hact, htest act hact'⟩
    rw [List.countP_append]
    by_contra hmany
    have htrue := hone true
    have hfalse := hone false
    have hsame : true = false :=
      hcustody.alone true false (hholds true (by omega)) (hholds false (by omega))
    cases hsame
  constructor
  · rintro ⟨htrue, hfalse⟩
    have hsame : true = false := hcustody.alone true false (hheld true htrue) (hheld false hfalse)
    cases hsame
  · exact hcount _ (fun act hact => by simp [Act.releases, hact]) fun _ _ h => h.counts.1
  · exact hcount _ (fun act hact => by simp [Act.releases, hact]) fun _ _ h => h.counts.2.1
  · exact hcount _ (fun act hact => by simp [Act.releases, hact]) fun _ _ h => h.counts.2.2

/-- The state after a region has been mapped. -/
def World.oneRegion : World :=
  { World.initial.plainMmioMapped.setCtx 0
      (fun k => { k with id := k.id + 1, smmuTable := 0 :: k.smmuTable }) with
    smaps := Function.update World.initial.plainMmioMapped.smaps 0 { context := some 0 }
    mmioCtxs := Function.update World.initial.plainMmioMapped.mmioCtxs 0
      ⟨⟨0, 0⟩, 0x8000, 0x1000⟩ }.release (.heap 0)

theorem oneRegion_run : ∃ history, Run kernel kiumdIoctl .any World.initial history .oneRegion := by
  have hexec : Exec kernel (mmioPublish plainMmio 0 0 0 0 ⟨0, 0⟩ 0x8000 0x1000)
      World.initial.plainMmioMapped
      [⟨.smmuAddMmio 0 0 0 ⟨⟨0, 0⟩, 0x8000, 0x1000⟩, 0⟩, ⟨.copyToUser (.mmio
        { plainMmio with iova := 0x8000, regLen := 0x1000 }), true⟩, ⟨.kfree 0, ()⟩] (some 0)
      .oneRegion :=
    .call rfl (.call rfl (.call rfl (.ret _ _)))
  exact ⟨_, .request .start (plainMmio_exec rfl hexec) trivial⟩

/-- The second request finds no entry. -/
theorem concurrent_unmaps_release_once_in_turn : ∃ P : UnmapPool Bool,
    (unmapSystem 0 fun _ => .mmioUnmap plainMmio).Reach (FindsAlone 0 0)
      (.quiet (.fresh .oneRegion)) P ∧
      P.shared.returned true = some 0 ∧ P.shared.returned false = some (-ENOENT) ∧
      ReleasesOnce P.shared := by
  have hother : ∀ {P : UnmapPool Bool} {t : Bool} {e : Event KCall},
      (∀ act ∈ e.call.act e.answer, act.finds 0 0 = none) → FindsAlone 0 0 P (.call t e) := by
    rintro P t e hnone _ _ ⟨⟩ ⟨act, hact, hfinds⟩
    rw [hnone act hact] at hfinds
    cases hfinds
  have hstart : (unmapSystem 0 fun _ : Bool => .mmioUnmap plainMmio).Reach (FindsAlone 0 0)
    (.quiet (.fresh .oneRegion)) (.quiet (.fresh .oneRegion)) := .here
  have hfound := ((hstart.start true _ rfl ⟨rfl, rfl, rfl⟩ (fun _ _ h => by cases h)).call true true
    rfl rfl (hother (by simp [KCall.act]))).call true (some 0 : Option Nat) rfl rfl ?_
  swap
  · rintro _ _ ⟨⟩ - u hu ⟨⟨act, hact, -⟩, -⟩
    cases u with
    | true => exact hu rfl
    | false => exact absurd hact List.not_mem_nil
  have hread := (hfound.call true ({ context := some 0 } : SmmuMapData) rfl rfl
    (hother (by simp [KCall.act, Act.finds]))).call true (⟨⟨0, 0⟩, 0x8000, 0x1000⟩ :
      KiumdSmmuMmioCtx) rfl rfl (hother (by simp [KCall.act, Act.finds]))
  have hreleased := (hread.call true () rfl rfl (hother (by simp [KCall.act, Act.finds]))).call true
    () rfl rfl (hother (by simp [KCall.act, Act.finds]))
  have hmissed := ((hreleased.start false _ rfl ⟨rfl, rfl, rfl⟩ (fun _ _ h => by cases h)).call false
    true rfl rfl (hother (by simp [KCall.act]))).call false (none : Option Nat) rfl rfl
      (hother (by simp [KCall.act, Act.finds]))
  exact ⟨_, hmissed, rfl, rfl, concurrent_unmaps_release_once (fun _ => rfl) (by decide) hmissed⟩

/-- Both requests find the entry before either deletes it. -/
theorem concurrent_unmaps_release_twice : ∃ history w,
    Run kernel kiumdIoctl .any World.initial history w ∧ w.withId 0 0 = [0] ∧
      ¬ ∀ P : UnmapPool Bool, (unmapSystem 0 fun _ => .mmioUnmap plainMmio).Reach Move.any
        (.quiet (.fresh w)) P → ReleasesOnce P.shared := by
  obtain ⟨history, hrun⟩ := oneRegion_run
  refine ⟨history, .oneRegion, hrun, by decide, fun h => ?_⟩
  have hstart : (unmapSystem 0 fun _ : Bool => .mmioUnmap plainMmio).Reach Move.any
    (.quiet (.fresh .oneRegion)) (.quiet (.fresh .oneRegion)) := .here
  have hfound := ((hstart.start true _ rfl ⟨rfl, rfl, rfl⟩ trivial).call true true rfl rfl
    trivial).call true (some 0 : Option Nat) rfl rfl trivial
  have hfound' := ((hfound.start false _ rfl ⟨rfl, rfl, rfl⟩ trivial).call false true rfl rfl
    trivial).call false (some 0 : Option Nat) rfl rfl trivial
  have hreleased := ((hfound'.call true ({ context := some 0 } : SmmuMapData) rfl rfl trivial).call
    true (⟨⟨0, 0⟩, 0x8000, 0x1000⟩ : KiumdSmmuMmioCtx) rfl rfl trivial).call true () rfl rfl trivial
  have hreleased' := ((hreleased.call false ({ context := some 0 } : SmmuMapData) rfl rfl
    trivial).call false (⟨⟨0, 0⟩, 0x8000, 0x1000⟩ : KiumdSmmuMmioCtx) rfl rfl trivial).call false
      () rfl rfl trivial
  have hdeleted := (hreleased'.call true () rfl rfl trivial).call false () rfl rfl trivial
  exact (h _ hdeleted).succeeds ⟨rfl, rfl⟩

end SafeLinux.Kiumd
