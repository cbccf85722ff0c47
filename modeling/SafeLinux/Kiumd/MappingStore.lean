import SafeLinux.Keyed.Basic
import SafeLinux.Kiumd.KgslLeases

/-!
# The mappings as a store

Seen from its users, a file of the driver is a store of mappings by id: a map request adds a mapping
under an id that the store does not have, an unmap request removes the mapping of the id that it
names, and closing the file removes mappings. In every run of services in which no context runs out
of ids, every service, whatever fails in it, takes one step of this store
(`service_run_refines_store`).
-/

namespace SafeLinux.Kiumd

open Effects

/-! ## The store -/

/-- The mappings of all files, by context and id. -/
abbrev Store := Nat → U32 → Option SmmuMapData

/-- The store with another mapping, or none, for one id. -/
def Store.set (S : Store) (c : Nat) (id : U32) (m : Option SmmuMapData) : Store :=
  Function.update S c (Function.update (S c) id m)

/-- The id that a request to unmap names. -/
def Request.unmapId : Request → Option U32
  | .unmapBuf u | .secureUnmap u => some u.id
  | .mmioUnmap u => some u.id
  | _ => none

/-- What a service that returns `result`, and has sent `reply` to the user, does to the store. -/
inductive Store.Step (reply : Option U32) : Service → Option Int → Store → Store → Prop where
  /-- No request succeeds without a change. -/
  | idle {s : Service} {result : Option Int} {S : Store} : (∀ i, s = .ioctl i → result ≠ some 0) →
      Step reply s result S S
  /-- The user learns the id from a request that succeeds. -/
  | insert {c : Nat} {r : Request} {result : Option Int} {S : Store} {m : SmmuMapData} :
      r.isMap = true → S c m.id = none → (result = some 0 → reply = some m.id) →
      Step reply (.ioctl ⟨c, r⟩) result S (S.set c m.id (some m))
  /-- Only a request that succeeds removes a mapping. -/
  | remove {c : Nat} {r : Request} {S : Store} {id : U32} {m : SmmuMapData} :
      r.unmapId = some id → S c id = some m →
      Step reply (.ioctl ⟨c, r⟩) (some 0) S (S.set c id none)
  | clear {c : Nat} {result : Option Int} {S S' : Store} : (∀ c' ≠ c, S' c' = S c') →
      (∀ id, S' c id = S c id ∨ S' c id = none) → Step reply (.close c) result S S'

/-- The mappings that the tables of a state hold. -/
def World.store (w : World) : Store := fun c =>
  Keyed.toMap (w.table c) (fun p => (w.smaps p).id) w.smaps

/-- The entries of each table have ids of their own, below the counter. -/
structure Numbered (w : World) : Prop where
  backed : Backed noNeeds w 0
  below : IdsBelow w
  distinct : ∀ c, ((w.table c).map fun p => (w.smaps p).id).Nodup

variable {as bs : List Act} {c p : Nat} {id : U32} {w w' : World} {trace : List (Event KCall)}
  {result : Option Int}

/-- `find_smmu` finds the mapping of an id in the store. -/
theorem store_find : w.store c id = (w.find c (·.id == id)).map w.smaps := rfl

/-! ## Changes of a table -/

section Tables

variable (hsame : TablesSame w w')
include hsame

theorem store_kept (htable : w'.table c = w.table c) : w'.store c = w.store c := by
  have hdata : ∀ p ∈ w.table c, w'.smaps p = w.smaps p := fun p hp =>
    hsame c p hp (by rwa [htable])
  unfold World.store
  rw [htable]
  exact Keyed.toMap_congr (fun p hp => by rw [hdata p hp]) hdata

theorem store_added (htable : w'.table c = p :: w.table c) :
    w'.store c = Function.update (w.store c) (w'.smaps p).id (some (w'.smaps p)) := by
  have hdata : ∀ q ∈ w.table c, w'.smaps q = w.smaps q := fun q hq =>
    hsame c q hq (by rw [htable]; exact List.mem_cons_of_mem _ hq)
  unfold World.store
  rw [htable, Keyed.toMap_cons]
  congr 1
  exact Keyed.toMap_congr (fun q hq => by rw [hdata q hq]) hdata

theorem store_of_subset (hn : Numbered w) (hsub : w'.table c ⊆ w.table c) :
    w'.store c id = w.store c id ∨ w'.store c id = none := by
  have hdata : ∀ q ∈ w'.table c, w'.smaps q = w.smaps q := fun q hq => hsame c q (hsub hq) hq
  have hstore : w'.store c = Keyed.toMap (w'.table c) (fun p => (w.smaps p).id) w.smaps :=
    Keyed.toMap_congr (fun q hq => by rw [hdata q hq]) hdata
  rw [hstore]
  exact Keyed.toMap_of_subset (hn.distinct c) hsub

theorem store_removed (hn : Numbered w) (hp : p ∈ w.table c)
    (htable : w'.table c = (w.table c).erase p) :
    w'.store c = Function.update (w.store c) (w.smaps p).id none := by
  have hdata : ∀ q ∈ (w.table c).erase p, w'.smaps q = w.smaps q := fun q hq =>
    hsame c q (List.mem_of_mem_erase hq) (by rwa [htable])
  unfold World.store
  rw [htable, Keyed.toMap_congr (fun q hq => by rw [hdata q hq]) hdata]
  exact Keyed.toMap_erase (hn.distinct c) hp

/-- The ids of a table from which entries have been taken. -/
theorem distinct_of_sublist (hdistinct : ((w.table c).map fun p => (w.smaps p).id).Nodup)
    (hsub : (w'.table c).Sublist (w.table c)) :
    ((w'.table c).map fun p => (w'.smaps p).id).Nodup := by
  have hids : (w'.table c).map (fun p => (w'.smaps p).id) =
      (w'.table c).map fun p => (w.smaps p).id :=
    List.map_congr_left fun q hq => by rw [hsame c q (hsub.subset hq) hq]
  rw [hids]
  exact hdistinct.sublist (hsub.map _)

/-- The ids of a table to which an entry with a new id has been added. -/
theorem distinct_of_added (hdistinct : ((w.table c).map fun p => (w.smaps p).id).Nodup)
    (htable : w'.table c = p :: w.table c)
    (hnew : ∀ q ∈ w.table c, (w.smaps q).id ≠ (w'.smaps p).id) :
    ((w'.table c).map fun p => (w'.smaps p).id).Nodup := by
  have hdata : ∀ q ∈ w.table c, w'.smaps q = w.smaps q := fun q hq =>
    hsame c q hq (by rw [htable]; exact List.mem_cons_of_mem _ hq)
  have hids : (w.table c).map (fun p => (w'.smaps p).id) =
      (w.table c).map fun p => (w.smaps p).id :=
    List.map_congr_left fun q hq => by rw [hdata q hq]
  rw [htable, List.map_cons, hids, List.nodup_cons]
  refine ⟨fun hmem => ?_, hdistinct⟩
  obtain ⟨q, hq, hid⟩ := List.mem_map.mp hmem
  exact hnew q hq hid

end Tables

/-! ## Requests to unmap -/

/-- The rest of a request to unmap fails and leaves the tables, or succeeds and deletes the entry
`p`. -/
inductive Erases (c p : Nat) : List Act → Option Int → Prop where
  | kept {as : List Act} {result : Option Int} : result ≠ some 0 → Leaves .ctxs as →
      Erases c p as result
  | removed {del : Act} {before after : List Act} : Leaves .ctxs before →
      del = .delete c p ∨ del = .deleteMmio c p → Leaves .ctxs after →
      Erases c p (before ++ del :: after) (some 0)

/-- A request to unmap the mapping of an id. -/
inductive UnmapsId (c : Nat) (id : U32) : List Act → Option Int → Prop where
  | unfound {as : List Act} {result : Option Int} : result ≠ some 0 → Leaves .ctxs as →
      UnmapsId c id as result
  | found {p : Nat} {find : Act} {as : List Act} {result : Option Int} :
      find = .find c id (some p) ∨ find = .findMmio c id (some p) → Erases c p as result →
      UnmapsId c id (find :: as) result

theorem Erases.prepend (h : Erases c p bs result) (has : Leaves .ctxs as) :
    Erases c p (as ++ bs) result := by
  cases h with
  | kept hret hbs => exact .kept hret (leaves_append.mpr ⟨has, hbs⟩)
  | removed hbefore hdel hafter =>
      rw [← List.append_assoc]
      exact .removed (leaves_append.mpr ⟨has, hbefore⟩) hdel hafter

/-- Calls that look for something and change no table. -/
theorem leaves_of_isLooking (h : ∀ act ∈ as, act.isLooking) : Leaves .ctxs as := by
  intro act hact
  have hlooking := h act hact
  cases act <;> first | (cases hlooking; done) | simp [Act.writes]

section Shapes

variable {u : KiumdUser} {d : DmaBuf} {a : Attachment} {vmids : List Int} {page : U64}
  {t : SgTable}

theorem FinishShape.erases (h : FinishShape u c p d a as result) : Erases c p as result := by
  cases h with
  | undomained hret hopening => exact .kept hret (leaves_of_isOpening hopening)
  | done hopening =>
      exact .removed (leaves_of_isOpening hopening) (.inl rfl) (by simp [Act.writes])

theorem UnmappedShape.erases (h : UnmappedShape u c p d a as result) : Erases c p as result := by
  have hreads : ∀ {as : List Act}, (∀ act ∈ as, act.isOpening ∨ ∃ data, act = .read p data) →
      Leaves .ctxs as := by
    intro as hreads act hact
    rcases hreads act hact with hopening | ⟨data, rfl⟩
    · exact leaves_of_isOpening (List.forall_mem_singleton.mpr hopening) act
        List.mem_cons_self
    · simp [Act.writes]
  cases h with
  | failed hret hfailed => exact .kept hret (hreads hfailed)
  | @privileged file v dev t acts result _ _ _ _ hfinish =>
      have hunmaps : Leaves .ctxs [.file u.vfioFd file,
          .unmapSgtable dev t u.unmapDir DMA_ATTR_PRIVILEGED] := by simp [Act.writes]
      exact hfinish.erases.prepend hunmaps
  | @attached data t acts result _ _ _ hfinish =>
      have hunmaps : Leaves .ctxs [.read p data, .unmapAttachment a t u.unmapDir] := by
        simp [Act.writes]
      exact hfinish.erases.prepend hunmaps
  | zeroFailed _ _ hret hfailed =>
      refine .kept hret (leaves_cons.mpr ⟨by simp [Act.writes],
        leaves_cons.mpr ⟨by simp [Act.writes], fun act hact => ?_⟩⟩)
      rcases hfailed act hact with hopening | ⟨dom, size, _, rfl⟩
      · exact leaves_of_isOpening (List.forall_mem_singleton.mpr hopening) act
          List.mem_cons_self
      · simp [Act.writes]
  | @zero data t file v dev acts result _ _ _ _ hfinish =>
      have hunmaps : Leaves .ctxs [.read p data, .unmapAttachment a t u.unmapDir,
          .file u.vfioFd file, .unmap dev.domain 0 d.size d.size] := by simp [Act.writes]
      exact hfinish.erases.prepend hunmaps

theorem UnmapShape.unmapsId (h : UnmapShape u c as result) : UnmapsId c u.id as result := by
  cases h with
  | early hret hearly =>
      refine .unfound hret fun act hact => ?_
      rw [hearly act hact]
      simp [Act.writes]
  | @found p acts result _ hrelease =>
      refine .found (.inl rfl) ?_
      cases hrelease with
      | empty hret hreads =>
          refine .kept hret fun act hact => ?_
          obtain ⟨data, rfl⟩ := hreads act hact
          simp [Act.writes]
      | @buffer data data' d a acts result _ _ hunmapped =>
          have hclear : Leaves .ctxs (.read p data :: .read p data' ::
              clearActs u.dmaAddr d.size u.ptselect) := by
            unfold clearActs
            split <;> simp [Act.writes]
          exact hunmapped.erases.prepend hclear

theorem TakeBackShape.erases (h : TakeBackShape c p vmids page a t as result) :
    Erases c p as result := by
  cases h with
  | kept hret hback => exact .kept (fun heq => by cases heq; omega) hback.leaves
  | half hret hback _ hrest =>
      refine .kept (fun heq => hret (Option.some.inj heq)) (leaves_append.mpr ⟨hback.leaves, ?_⟩)
      rcases hrest with rfl | ⟨data, _, rfl⟩ <;> simp [unassignPage, Act.writes]
  | @done back data d hback _ =>
      have hbefore : Leaves .ctxs (back ++ [unassignPage vmids page 0, .read p data, .detach d a,
          .put d]) := leaves_append.mpr ⟨hback.leaves, by simp [unassignPage, Act.writes]⟩
      have hdone : Erases c p ((back ++ [unassignPage vmids page 0, .read p data, .detach d a,
          .put d]) ++ [.delete c p]) (some 0) := .removed hbefore (.inl rfl) leaves_nil
      rwa [List.append_assoc] at hdone

theorem SecureUnmapShape.unmapsId (h : SecureUnmapShape u c as result) :
    UnmapsId c u.id as result := by
  cases h with
  | early hret hlooking => exact .unfound hret (leaves_of_isLooking hlooking)
  | @found file v dev page entries p data data' a t acts result _ _ _ _ _ _ _ _ hback =>
      have hacl : Leaves .ctxs (.file u.vfioFd file :: .pgd dev.domain page ::
          (aclActs u.memParcel.aclList 0 entries ++
            [.read p data, .read p data', .unmapAttachment a t DMA_BIDIRECTIONAL])) := by
        simp [Act.writes, leaves_of_isAcl aclActs_isAcl]
      have herases := hback.erases.prepend hacl
      refine .found (.inl rfl) ?_
      simpa using herases

theorem MmioUnmapShape.unmapsId {m : KiumdSmmuMmioMap} (h : MmioUnmapShape m c as result) :
    UnmapsId c m.id as result := by
  cases h with
  | early hret hearly =>
      refine .unfound hret fun act hact => ?_
      rcases hearly act hact with ⟨found, rfl⟩ | ⟨p, data, rfl⟩ <;> simp [Act.writes]
  | @done p n data mmio _ _ =>
      have hbefore : Leaves .ctxs [.read p data, .readMmio n mmio,
          .unmapResource mmio.dev mmio.iova mmio.size] := by simp [Act.writes]
      exact .found (.inr rfl) (.removed hbefore (.inr rfl) leaves_nil)

end Shapes

/-- A lookup finds an entry of the table by its id. -/
theorem find_id_step {β : Type} {request : KCall β} {answer : β} {act : Act}
    (hstep : kernelStep request w answer = some w') (hact : request.act answer = some act)
    (hfinds : act = .find c id (some p) ∨ act = .findMmio c id (some p)) :
    w' = w ∧ p ∈ w.table c ∧ (w.smaps p).id = id := by
  have hmem := (find_step hstep hact hfinds).1
  rcases hfinds with rfl | rfl
  · cases event_of_act hact rfl
    simp only [kernelStep] at hstep
    split at hstep <;> cases hstep
    rename_i hfound
    have htest := List.find?_some hfound.symm
    exact ⟨rfl, hmem, by simpa using htest⟩
  · cases event_of_act hact rfl
    simp only [kernelStep] at hstep
    split at hstep <;> cases hstep
    rename_i hfound
    have htest := List.find?_some hfound.symm
    rw [Bool.and_eq_true] at htest
    exact ⟨rfl, hmem, by simpa using htest.1⟩

/-- Deleting an entry erases it from its table. -/
theorem delete_table_step {β : Type} {request : KCall β} {answer : β} {act : Act}
    (hstep : kernelStep request w answer = some w') (hact : request.act answer = some act)
    (hdel : act = .delete c p ∨ act = .deleteMmio c p) :
    w'.table c = (w.table c).erase p := by
  have herase : (w.unlink c p).table c = (w.table c).erase p := by
    rw [World.table_unlink, Function.update_self]
  rcases hdel with rfl | rfl
  · cases event_of_act hact rfl
    cases hstep
    exact herase
  · cases event_of_act hact rfl
    simp only [kernelStep] at hstep
    split at hstep <;> cases hstep <;> exact herase

/-- What a request to unmap does to the table of its context. -/
inductive TableUnmap (w : World) (c : Nat) (id : U32) (result : Option Int) (w' : World) :
    Prop where
  | kept : result ≠ some 0 → w'.table c = w.table c → TableUnmap w c id result w'
  | removed {p : Nat} : result = some 0 → p ∈ w.table c → (w.smaps p).id = id →
      w'.table c = (w.table c).erase p → TableUnmap w c id result w'

theorem leaves_table (h : Steps kernel w trace w') (hleaves : Leaves .ctxs (acts trace)) :
    w'.table c = w.table c := by
  have hctxs : w.Agrees w' .ctxs := steps_agrees rfl h hleaves
  exact congrArg KiumdCtx.smmuTable (congrFun hctxs c)

theorem Erases.table (h : Erases c p (acts trace) result) (hsteps : Steps kernel w trace w')
    (hp : p ∈ w.table c) : TableUnmap w c (w.smaps p).id result w' := by
  generalize hacts : acts trace = as at h
  cases h with
  | kept hret hleaves => exact .kept hret (leaves_table hsteps (by rwa [hacts]))
  | @removed del before after hbefore hdel hafter =>
      obtain ⟨first, e, rest, rfl, hfirst, hview, hrest⟩ := Observer.exists_event hacts
      obtain ⟨w₁, hsteps₁, hsteps₂⟩ := steps_append_iff.mp hsteps
      obtain ⟨w₂, hstep, hsteps₃⟩ := steps_cons_iff.mp hsteps₂
      refine .removed rfl hp rfl ?_
      calc w'.table c = w₂.table c := leaves_table hsteps₃ (by rwa [acts, hrest])
        _ = (w₁.table c).erase p := delete_table_step hstep hview hdel
        _ = (w.table c).erase p := by rw [leaves_table hsteps₁ (by rwa [acts, hfirst])]

theorem UnmapsId.table (h : UnmapsId c id (acts trace) result) (hsteps : Steps kernel w trace w') :
    TableUnmap w c id result w' := by
  generalize hacts : acts trace = as at h
  cases h with
  | unfound hret hleaves => exact .kept hret (leaves_table hsteps (by rwa [hacts]))
  | @found p find bs _ hfind herases =>
      have hsplit : acts trace = [] ++ find :: bs := hacts
      obtain ⟨first, e, rest, rfl, hfirst, hview, hrest⟩ := Observer.exists_event hsplit
      obtain ⟨w₁, hsteps₁, hsteps₂⟩ := steps_append_iff.mp hsteps
      obtain ⟨w₂, hstep, hsteps₃⟩ := steps_cons_iff.mp hsteps₂
      have hnone : acts first = [] := hfirst
      -- nothing has happened before the lookup
      have htable : w₁.table c = w.table c := leaves_table hsteps₁ (by rw [hnone]; exact leaves_nil)
      have hsmaps : w₁.smaps = w.smaps :=
        smaps_steps hsteps₁ (by rw [hnone]; exact fun _ hact => absurd hact List.not_mem_nil)
      obtain ⟨rfl, hp, rfl⟩ := find_id_step hstep hview hfind
      have hlater : Erases c p (acts rest) result := by rwa [acts, hrest]
      cases hlater.table hsteps₃ hp with
      | kept hret heq => exact .kept hret (heq.trans htable)
      | removed hret hq hid heq =>
          rw [hsmaps] at hid
          rw [htable] at hq heq
          exact .removed hret hq (hid.trans (by rw [hsmaps])) heq

/-! ## Requests to map -/

/-- What a request to map does to the table of its context: the new entry has the value of the
counter. -/
inductive TableMap (w : World) (c : Nat) (w' : World) : Prop where
  | kept : w'.table c = w.table c → TableMap w c w'
  | added {p : Nat} : w'.table c = p :: w.table c → (w'.smaps p).id = (w.ctxs c).id →
      TableMap w c w'

theorem AddOutcome.tableMap {kind : SmmuMapData → Attachment → Prop}
    (h : AddOutcome w c kind trace w') (hb : Backed noNeeds w 0) : TableMap w c w' := by
  have hnew := fun p htable => (AddOutcome.newEntry (p := p) hb h htable).1
  cases h with
  | refused frame => exact .kept (by rw [World.table, frame.ctxs]; rfl)
  | published p d a data _ _ _ frame | stale p d a data _ _ _ _ frame =>
      have htable : w'.table c = p :: w.table c := by
        rw [World.table, frame.ctxs]
        show (w.publish c p data).table c = _
        rw [World.table_publish, Function.update_self]
      exact .added htable (hnew p htable)

theorem AddMmioOutcome.tableMap (h : AddMmioOutcome w c w') (hb : Backed noNeeds w 0) :
    TableMap w c w' := by
  have hnew := fun p htable => (AddMmioOutcome.newEntry (p := p) hb h htable).1
  cases h with
  | refused frame => exact .kept (by rw [World.table, frame.ctxs]; rfl)
  | retracted frame =>
      refine .kept ?_
      rw [World.table, frame.ctxs]
      show (w.skipId c).table c = _
      rw [World.table_skipId]
  | published p m mmio _ _ frame =>
      have htable : w'.table c = p :: w.table c := by
        rw [World.table, frame.ctxs]
        show (w.publishMmio c p m mmio).table c = _
        rw [World.table_publishMmio, Function.update_self]
      exact .added htable (hnew p htable)

/-! ## Steps of the store -/

section Steps

variable {r : Request} {reply : Option U32}

theorem store_set {m : Option SmmuMapData} (hsame : TablesSame w w')
    (hothers : ∀ c' ≠ c, w'.table c' = w.table c')
    (h : w'.store c = Function.update (w.store c) id m) : w'.store = w.store.set c id m := by
  funext c'
  by_cases hc : c' = c
  · subst hc
    rw [Store.set, Function.update_self, h]
  · rw [Store.set, Function.update_of_ne hc]
    exact store_kept hsame (hothers c' hc)

/-- The store stays when no table changes. -/
theorem store_eq (hsame : TablesSame w w') (hothers : ∀ c' ≠ c, w'.table c' = w.table c')
    (htable : w'.table c = w.table c) : w'.store = w.store := by
  funext c'
  by_cases hc : c' = c
  · subst hc
    exact store_kept hsame htable
  · exact store_kept hsame (hothers c' hc)

theorem TableUnmap.step (h : TableUnmap w c id result w') (hid : r.unmapId = some id)
    (hn : Numbered w) (hsame : TablesSame w w') (hothers : ∀ c' ≠ c, w'.table c' = w.table c') :
    Store.Step reply (.ioctl ⟨c, r⟩) result w.store w'.store := by
  cases h with
  | kept hret htable =>
      rw [store_eq hsame hothers htable]
      exact .idle fun _ _ => hret
  | @removed p hret hp hkey htable =>
      subst hret hkey
      rw [store_set hsame hothers (store_removed hsame hn hp htable)]
      exact .remove hid (Keyed.toMap_key (hn.distinct c) hp)

theorem TableMap.step (h : TableMap w c w') (hmap : r.isMap = true) (hn : Numbered w)
    (hsame : TablesSame w w') (hothers : ∀ c' ≠ c, w'.table c' = w.table c')
    (hsteps : Steps kernel w trace w')
    (hreturns : result = some 0 → ∃ p id, AddsAndReturns c p id (acts trace)) :
    Store.Step (returnedId trace) (.ioctl ⟨c, r⟩) result w.store w'.store := by
  cases h with
  | kept htable =>
      rw [store_eq hsame hothers htable]
      refine .idle fun _ _ hret => ?_
      obtain ⟨p, id, hadds⟩ := hreturns hret
      have hctxs := congrArg KiumdCtx.smmuTable (hadds.steps hsteps).2.2.2
      exact absurd (hctxs.symm.trans htable) (List.cons_ne_self _ _)
  | @added p htable hcount =>
      rw [store_set hsame hothers (store_added hsame htable)]
      refine .insert hmap ?_ fun hret => ?_
      · refine Keyed.toMap_eq_none.mpr fun q hq hid => ?_
        have hlt := hn.below c q hq
        have hid' : (w.smaps q).id = (w.ctxs c).id := hid.trans hcount
        rw [hid'] at hlt
        exact BitVec.lt_irrefl _ hlt
      · obtain ⟨p', id, hadds⟩ := hreturns hret
        obtain ⟨hreply, hdrawn, -, -⟩ := hadds.steps hsteps
        rw [hreply, hdrawn, hcount]

end Steps

/-! ## Ids of a run -/

/-- Without a new entry, entries only go from a table. -/
theorem table_sublist_step {β : Type} {request : KCall β} {answer : β}
    (hstep : kernelStep request w answer = some w')
    (hact : ∀ act ∈ request.act answer, act.draws c = none) :
    (w'.table c).Sublist (w.table c) := by
  have hset : ∀ (c' : Nat) (f : KiumdCtx → KiumdCtx),
      (c' = c → (f (w.ctxs c)).smmuTable.Sublist (w.table c)) →
      ((w.setCtx c' f).table c).Sublist (w.table c) := by
    intro c' f hf
    by_cases hc : c' = c
    · subst hc
      rw [World.table, World.setCtx_ctxs_self]
      exact hf rfl
    · have hother : (w.setCtx c' f).ctxs c = w.ctxs c := Function.update_of_ne (Ne.symm hc) _ _
      rw [World.table, hother]
      exact .refl _
  have herase : ∀ c' p, ((w.setCtx c' fun k => { k with smmuTable := k.smmuTable.erase p }).table
      c).Sublist (w.table c) := fun c' p => hset c' _ fun _ => List.erase_sublist
  by_cases hwrites : Field.ctxs ∈ request.writes
  swap
  · have hctxs : w'.ctxs = w.ctxs := step_agrees hstep hwrites
    rw [World.table, hctxs]
    exact .refl _
  cases request with
  | smmuAdd c' p data | smmuAddMmio c' p m mmio =>
      have hc : c' ≠ c := fun heq => by simpa [Act.draws, heq] using hact _ rfl
      simp only [kernelStep] at hstep
      split at hstep <;> cases hstep
      exact hset c' (fun k => { k with id := k.id + 1, smmuTable := p :: k.smmuTable })
        fun heq => absurd heq hc
  | smmuDelMmio c' p =>
      simp only [kernelStep] at hstep
      split at hstep <;> cases hstep <;> exact herase c' p
  | smmuDel c' p | hashDel c' p =>
      cases hstep
      exact herase c' p
  | setNumReservedRegions | setResMemArea | xaDestroy =>
      cases hstep
      exact hset _ _ fun _ => .refl _
  | _ => simp [KCall.writes] at hwrites

theorem table_sublist_steps (h : Steps kernel w trace w') (hnot : ¬ Draws c trace) :
    (w'.table c).Sublist (w.table c) := by
  refine @Steps.keep _ _ kernel _ _ _ (fun s => (s.table c).Sublist (w.table c)) h ?_ (.refl _)
  intro e he s s' hstep hs
  refine (table_sublist_step hstep fun act hact => ?_).trans hs
  refine Option.not_isSome_iff_eq_none.mp fun hdraws => hnot ⟨act, ?_, hdraws⟩
  exact List.mem_filterMap.mpr ⟨e, he, hact⟩

/-- A service that adds no entry. -/
theorem Numbered.sublist (h : Numbered w) (hb : Backed noNeeds w' 0) (hsame : TablesSame w w')
    (hsteps : Steps kernel w trace w') (hnot : ∀ c, ¬ Draws c trace) : Numbered w' where
  backed := hb
  below := by
    refine h.below.mono (fun c p hp => ?_) fun c => ?_
    · have hp' := (table_sublist_steps hsteps (hnot c)).subset hp
      exact ⟨hp', hsame c p hp' hp⟩
    · rw [id_of_not_draws hsteps (hnot c)]
      exact BitVec.le_refl _
  distinct c := distinct_of_sublist hsame (h.distinct c) (table_sublist_steps hsteps (hnot c))

theorem not_draws_of_adds (h : ∀ act ∈ acts trace, act.adds = false) : ¬ Draws c trace := by
  rintro ⟨act, hact, hdraws⟩
  obtain ⟨⟨p, id⟩, heq⟩ := Option.isSome_iff_exists.mp hdraws
  have hadds := Act.adds_of_draws heq
  rw [h act hact] at hadds
  cases hadds

/-- A request on the context `c`. -/
theorem Numbered.ioctl {i : Ioctl} (h : Numbered w)
    (hexec : Exec kernel (kiumdIoctl i) w trace result w') (hsame : TablesSame w w')
    (hothers : ∀ c ≠ i.ctx, w'.table c = w.table c)
    (hnonneg : Draws i.ctx trace → 0 ≤ (w.ctxs i.ctx).id.toInt)
    (hids : ((w'.table i.ctx).map fun p => (w'.smaps p).id).Nodup) : Numbered w' where
  backed := wp_exec (kiumdIoctl_keeps i h.backed) hexec
  below := kiumdIoctl_idsBelow h.below h.backed hexec hnonneg
  distinct c := by
    by_cases hc : c = i.ctx
    · rw [hc]
      exact hids
    · refine distinct_of_sublist hsame (h.distinct c) ?_
      rw [hothers c hc]

theorem TableMap.distinct (h : TableMap w c w') (hn : Numbered w) (hsame : TablesSame w w') :
    ((w'.table c).map fun p => (w'.smaps p).id).Nodup := by
  cases h with
  | kept htable => exact distinct_of_sublist hsame (hn.distinct c) (by rw [htable])
  | @added p htable hcount =>
      refine distinct_of_added hsame (hn.distinct c) htable fun q hq hid => ?_
      have hlt := hn.below c q hq
      rw [hid, hcount] at hlt
      exact BitVec.lt_irrefl _ hlt

theorem TableUnmap.distinct (h : TableUnmap w c id result w') (hn : Numbered w)
    (hsame : TablesSame w w') : ((w'.table c).map fun p => (w'.smaps p).id).Nodup := by
  refine distinct_of_sublist hsame (hn.distinct c) ?_
  cases h with
  | kept _ htable => rw [htable]
  | removed _ _ _ htable =>
      rw [htable]
      exact List.erase_sublist

/-! ## Services -/

/-- A request draws no negative id, and an MMIO_MAP for a device that is not a platform device does
not return `0` by chance. -/
def ServiceIdsLeft : Admission Service KCall World := fun _ s w trace =>
  ∀ i, s = .ioctl i → IdsLeft [] i w trace

theorem ClosesEntry.addsNone (h : ClosesEntry w c p as) : ∀ act ∈ as, act.adds = false := by
  cases h <;> simp [Act.adds]

theorem EntryByEntry.addsNone {entries : List Nat}
    (h : EntryByEntry (ClosesEntry w c) entries as) : ∀ act ∈ as, act.adds = false :=
  h.forall_mem fun _ _ hentry => hentry.addsNone

theorem kiumdClose_addsNone (hb : Backed noNeeds w 0) :
    wp kernel .any (kiumdClose (some c)) (fun trace _ _ => ∀ act ∈ acts trace, act.adds = false)
      w := by
  refine wp_mono (kiumdClose_does hb) ?_
  rintro trace _ _ ⟨entries, loop, rest, hacts, -, hloop, hrest⟩
  rw [hacts]
  refine List.forall_mem_cons.mpr ⟨rfl, List.forall_mem_append.mpr ⟨hloop.addsNone, ?_⟩⟩
  intro act hact
  have hisRest := hrest act hact
  cases act <;> first | rfl | cases hisRest

/-- A service takes one step of the store and leaves the ids apart. -/
theorem kiumdService_steps (s : Service) (h : Numbered w)
    (hexec : Exec kernel (kiumdService s) w trace result w') (hok : ServiceIdsLeft [] s w trace) :
    Numbered w' ∧ Store.Step (returnedId trace) s result w.store w'.store := by
  have hb := wp_exec (kiumdService_keeps s h.backed) hexec
  have hsame := wp_exec (kiumdService_tablesSame s h.backed) hexec
  have hothers := (wp_exec (kiumdService_othersKept s h.backed) hexec).ctxs
  cases s with
  | ioctl i =>
      have hshape : IoctlShape i (acts trace) result :=
        (kiumdIoctl_shows i).exec driver_admits hexec
      obtain ⟨hnonneg, hplatform⟩ := hok i rfl
      have htables : ∀ c ≠ i.ctx, w'.table c = w.table c := fun c hc =>
        congrArg KiumdCtx.smmuTable (hothers c fun heq => hc (Option.some.inj heq))
      have hmap : TableMap w i.ctx w' → i.request.isMap = true →
          (result = some 0 → ∃ p id, AddsAndReturns i.ctx p id (acts trace)) →
          Numbered w' ∧ Store.Step (returnedId trace) (.ioctl i) result w.store w'.store :=
        fun hout hismap hreturns =>
          ⟨h.ioctl hexec hsame htables hnonneg (hout.distinct h hsame),
            hout.step hismap h hsame htables hexec.steps hreturns⟩
      have hunmap : ∀ id, UnmapsId i.ctx id (acts trace) result →
          i.request.unmapId = some id →
          Numbered w' ∧ Store.Step (returnedId trace) (.ioctl i) result w.store w'.store :=
        fun id hunmaps hid =>
          ⟨h.ioctl hexec hsame htables hnonneg ((hunmaps.table hexec.steps).distinct h hsame),
            (hunmaps.table hexec.steps).step hid h hsame htables⟩
      obtain ⟨c, request⟩ := i
      cases request with
      | mapBuf u =>
          refine hmap ((wp_exec kiumdDmabufVfioMap_adds hexec).tableMap h.backed) rfl fun hret => ?_
          subst hret
          exact MapShape.adds hshape
      | secureMap u =>
          refine hmap ((wp_exec kiumdDmabufVfioSecureMap_adds hexec).tableMap h.backed) rfl
            fun hret => ?_
          subst hret
          exact SecureMapShape.adds hshape
      | mmioMap ret₀ u =>
          refine hmap ((wp_exec kiumdMmioSmmuMap_adds hexec).tableMap h.backed) rfl fun hret => ?_
          subst hret
          exact MmioMapShape.adds hshape (hplatform ret₀ u rfl)
      | unmapBuf u => exact hunmap u.id (UnmapShape.unmapsId hshape) rfl
      | secureUnmap u => exact hunmap u.id (SecureUnmapShape.unmapsId hshape) rfl
      | mmioUnmap u => exact hunmap u.id (MmioUnmapShape.unmapsId hshape) rfl
  | iovaMapCtrl copied =>
      have hctxs : ∀ c, w'.ctxs c = w.ctxs c := fun c => hothers c fun heq => by cases heq
      have htables : ∀ c, w'.table c = w.table c := fun c =>
        congrArg KiumdCtx.smmuTable (hctxs c)
      refine ⟨⟨hb, ?_, fun c => distinct_of_sublist hsame (h.distinct c) (by rw [htables c])⟩, ?_⟩
      · refine h.below.mono (fun c p hp => ?_) fun c => ?_
        · have hp' : p ∈ w.table c := by rwa [← htables c]
          exact ⟨hp', hsame c p hp' hp⟩
        · rw [hctxs c]
          exact BitVec.le_refl _
      · have hstore : w'.store = w.store := funext fun c => store_kept hsame (htables c)
        rw [hstore]
        exact .idle fun i hi => by cases hi
  | close c =>
      have hnot : ∀ c', ¬ Draws c' trace := fun c' =>
        not_draws_of_adds (wp_exec (kiumdClose_addsNone h.backed) hexec)
      refine ⟨h.sublist hb hsame hexec.steps hnot, .clear (fun c' hc => ?_) fun id => ?_⟩
      · exact store_kept hsame
          (congrArg KiumdCtx.smmuTable (hothers c' fun heq => hc (Option.some.inj heq)))
      · exact store_of_subset hsame h (table_sublist_steps hexec.steps (hnot c)).subset

/-! ## Runs -/

variable {w₀ : World} {history : History Service KCall} {s : Service}

theorem service_run_numbered (hstart : w₀.Fresh)
    (h : Run kernel kiumdService ServiceIdsLeft w₀ history w) : Numbered w := by
  induction h with
  | start =>
      refine ⟨hstart.backed, fun c p hp => ?_, fun c => ?_⟩
      · simp [hstart.table_nil c] at hp
      · simp [hstart.table_nil c]
  | request _ hexec hok ih => exact (kiumdService_steps _ ih hexec hok).1

/-- In every state that services of any number of files lead to, as long as no context draws a
negative id, every execution of a service, whatever fails and even if its thread is killed, takes
one step of the store of mappings. A request that succeeds adds one mapping under an id that was
free in its context, which it reports, or removes the mapping of the id that it names; a request
that fails removes nothing; a close removes mappings of its own file only. -/
theorem service_run_refines_store (hstart : w₀.Fresh)
    (h : Run kernel kiumdService ServiceIdsLeft w₀ history w)
    (hexec : Exec kernel (kiumdService s) w trace result w')
    (hok : ServiceIdsLeft history s w trace) :
    Store.Step (returnedId trace) s result w.store w'.store :=
  (kiumdService_steps s (service_run_numbered hstart h) hexec hok).2

/-- A buffer is mapped under the id `0` and unmapped. -/
theorem service_run_refines_store_unmap : ∃ trace w trace' w',
    Exec kernel (kiumdService (.ioctl ⟨0, .mapBuf plainUser⟩)) .initial trace (some 0) w ∧
    Exec kernel (kiumdService (.ioctl ⟨0, .unmapBuf plainUser⟩)) w trace' (some 0) w' ∧
    (w.store 0 0).isSome = true ∧
    Store.Step (returnedId trace') (.ioctl ⟨0, .unmapBuf plainUser⟩) (some 0) w.store w'.store := by
  have hcheck : (kiumdService (.ioctl ⟨0, .mapBuf plainUser⟩)).check kernel
      (Answers.plain fun _ _ => false).choose .initial
      (fun _ value w => decide (value = 0) && (w.store 0 0).isSome &&
        (kiumdService (.ioctl ⟨0, .unmapBuf plainUser⟩)).check kernel
          (Answers.plain fun _ _ => false).choose w (fun trace' value' _ => decide (value' = 0) &&
            (acts trace').all (fun act => (act.draws 0).isNone))) = true := by
    decide +kernel
  obtain ⟨trace, value, w, hexec, htest⟩ := Program.check_exec hcheck
  rw [Bool.and_eq_true, Bool.and_eq_true] at htest
  obtain ⟨⟨hvalue, hstored⟩, hsecond⟩ := htest
  obtain rfl : value = 0 := of_decide_eq_true hvalue
  obtain ⟨trace', value', w', hexec', htest'⟩ := Program.check_exec hsecond
  rw [Bool.and_eq_true] at htest'
  obtain rfl : value' = 0 := of_decide_eq_true htest'.1
  have hok : ServiceIdsLeft [] (.ioctl ⟨0, .mapBuf plainUser⟩) .initial trace := by
    intro i hi
    cases hi
    exact ⟨fun _ => by decide, fun _ _ hmmio => by cases hmmio⟩
  have hok' : ServiceIdsLeft [(.ioctl ⟨0, .mapBuf plainUser⟩, trace)]
      (.ioctl ⟨0, .unmapBuf plainUser⟩) w trace' := by
    intro i hi
    cases hi
    refine ⟨fun hdraws => ?_, fun _ _ hmmio => by cases hmmio⟩
    obtain ⟨act, hact, hsome⟩ := hdraws
    have hnone := List.all_eq_true.mp htest'.2 act hact
    rw [Option.isNone_iff_eq_none] at hnone
    rw [hnone] at hsome
    cases hsome
  exact ⟨trace, w, trace', w', hexec, hexec', hstored,
    service_run_refines_store fresh_initial (.request .start hexec hok) hexec' hok'⟩

end SafeLinux.Kiumd
