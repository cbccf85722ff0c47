import SafeLinux.Loans.Basic
import SafeLinux.ScmIntf.SecureCalls

/-!
# What the translation of file descriptors holds

`translate_fd_to_pa` takes a reference on the buffer of each descriptor, and
`get_pa_from_dmabuf_fd` an attachment and a mapping. The reference that is put is that of the last
buffer, and only if all were translated; a failed attach or mapping leaves an error pointer to the
common exit. `translatePositions_released_iff` says for which lists and outcomes everything is
released once.
-/

namespace SafeLinux.ScmIntf

open Effects
open Effects.Program (perform)
open Loans

/-! ## What is observed -/

/-- What the driver holds of a buffer: a reference, an attachment, or a mapping of one. -/
inductive Hold where
  | reference (dmaBuf : Nat)
  | attachment (attach : Nat)
  | mapping (attach : Nat)
  deriving DecidableEq

/-- What is observed of a request after it is copied in. -/
inductive RequestAct where
  /-- `dma_buf_get`: the buffer, or no buffer. -/
  | found (dmaBuf : Nat)
  | notFound
  /-- `dma_buf_attach` -/
  | attached (dmaBuf attach : Nat)
  | unattached
  /-- `dma_buf_map_attachment` -/
  | mapped (attach : Nat) (sgt : SgTable)
  | unmappable
  | unmapped (attach : Nat)
  | detached (attach : Nat)
  | put (dmaBuf : Nat)
  /-- `memremap`: whether it succeeds. -/
  | remapped (ok : Bool)
  /-- A secure call: what it returns. -/
  | secured (ret : U32)
  /-- `copy_to_user`: whether it succeeds. -/
  | copiedOut (ok : Bool)

/-- The observer of requests; every answer is possible. -/
def requestObserver : Observer ScmCall RequestAct where
  possible := fun _ _ => True
  view := fun request answer =>
    match request with
    | .dmaBufGet _ =>
        match answer with
        | .ptr dmaBuf => some (.found dmaBuf)
        | _ => some .notFound
    | .dmaBufPut dmaBuf => some (.put dmaBuf)
    | .dmaBufAttach dmaBuf =>
        match answer with
        | some attach => some (.attached dmaBuf attach)
        | none => some .unattached
    | .dmaBufMapAttachment attach =>
        match answer with
        | some sgt => some (.mapped attach sgt)
        | none => some .unmappable
    | .dmaBufUnmapAttachment attach => some (.unmapped attach)
    | .dmaBufDetach _ attach => some (.detached attach)
    | .memremap _ _ => some (.remapped answer.isSome)
    | .qcomScmCall _ | .wrapper _ _ => some (.secured answer.1)
    | .copyToUser _ => some (.copiedOut answer)
    | .copyFromUser | .memunmap _ | .oops | .overrun => none

/-- What an act takes or gives back. -/
def RequestAct.loan? : RequestAct → Option (Loan Hold)
  | .found dmaBuf => some (.take (.reference dmaBuf))
  | .put dmaBuf => some (.give (.reference dmaBuf))
  | .attached _ attach => some (.take (.attachment attach))
  | .detached attach => some (.give (.attachment attach))
  | .mapped attach _ => some (.take (.mapping attach))
  | .unmapped attach => some (.give (.mapping attach))
  | .notFound | .unattached | .unmappable | .remapped _ | .secured _ | .copiedOut _ => none

/-- What is taken and given back, in order. -/
def holdings (acts : List RequestAct) : List (Loan Hold) := acts.filterMap RequestAct.loan?

theorem requestObserver_admits : requestObserver.Admits Semantics.free := fun _ _ _ _ _ => trivial

variable {acts acts' : List RequestAct}

@[simp] theorem holdings_append : holdings (acts ++ acts') = holdings acts ++ holdings acts' :=
  List.filterMap_append

@[simp] theorem holdings_found {dmaBuf : Nat} :
    holdings (.found dmaBuf :: acts) = .take (.reference dmaBuf) :: holdings acts := rfl

/-- A mapping is one segment with an address. -/
def SgTable.Whole (sgt : SgTable) : Prop := sgt.nents = 1 ∧ sgt.dmaAddress ≠ 0

instance (sgt : SgTable) : Decidable sgt.Whole := inferInstanceAs (Decidable (_ ∧ _))

/-! ## One descriptor -/

/-- The address of a mapping, or the error for it. -/
def paOf (sgt : SgTable) : Except Int U64 :=
  if sgt.nents ≠ 1 then .error (-EINVAL)
  else if sgt.dmaAddress = 0 then .error (-EINVAL)
  else .ok sgt.dmaAddress

/-- The acts of `get_pa_from_dmabuf_fd` and its result; it is `none` when an error pointer is
used. -/
inductive PaActs (dmaBuf : Nat) : List RequestAct → Option (Except Int U64) → Prop where
  | unattached : PaActs dmaBuf [.unattached] none
  | unmappable {attach : Nat} : PaActs dmaBuf [.attached dmaBuf attach, .unmappable] none
  | mapped {attach : Nat} {sgt : SgTable} :
      PaActs dmaBuf
        [.attached dmaBuf attach, .mapped attach sgt, .unmapped attach, .detached attach]
        (some (paOf sgt))

theorem getPaFromDmabufFd_shows (dmaBuf : Nat) :
    (getPaFromDmabufFd dmaBuf).Shows requestObserver (PaActs dmaBuf) := by
  unfold getPaFromDmabufFd
  refine shows_call fun attach _ => ?_
  cases attach with
  | none => exact @shows_halt _ _ _ _ _ _ (inferInstanceAs (IsEmpty Empty)) _ _ .unattached
  | some attach =>
      refine shows_call fun sgt _ => ?_
      cases sgt with
      | none => exact @shows_halt _ _ _ _ _ _ (inferInstanceAs (IsEmpty Empty)) _ _ .unmappable
      | some sgt =>
          refine shows_act (fun _ => .unmapped attach) (fun _ => rfl) fun _ _ => ?_
          refine shows_act (fun _ => .detached attach) (fun _ => rfl) fun _ _ => ?_
          exact shows_pure .mapped

theorem paOf_ok_iff {sgt : SgTable} : (∃ pa, paOf sgt = .ok pa) ↔ sgt.Whole := by
  unfold paOf SgTable.Whole
  split_ifs with hnents haddress
  · exact iff_of_false nofun fun h => hnents h.1
  · exact iff_of_false nofun fun h => h.2 haddress
  · exact iff_of_true ⟨_, rfl⟩ ⟨not_not.mp hnents, haddress⟩

/-- A buffer is mapped as one segment. -/
def MapsWhole (acts : List RequestAct) : Prop :=
  ∃ attach sgt, RequestAct.mapped attach sgt ∈ acts ∧ sgt.Whole

theorem mapsWhole_found {dmaBuf : Nat} : MapsWhole (.found dmaBuf :: acts) ↔ MapsWhole acts := by
  simp [MapsWhole]

theorem MapsWhole.append (h : MapsWhole acts) (acts' : List RequestAct) :
    MapsWhole (acts ++ acts') := by
  obtain ⟨attach, sgt, hmem, hwhole⟩ := h
  exact ⟨attach, sgt, List.mem_append_left _ hmem, hwhole⟩

variable {dmaBuf : Nat} {pa : Option (Except Int U64)}

/-- An address is found for a buffer that is mapped as one segment. -/
theorem PaActs.mapsWhole_iff (h : PaActs dmaBuf acts pa) :
    MapsWhole acts ↔ ∃ addr, pa = some (.ok addr) := by
  cases h with
  | unattached | unmappable => simp [MapsWhole]
  | mapped => simpa [MapsWhole] using paOf_ok_iff.symm

/-- The attachment and the mapping are released if no error pointer is used. -/
theorem PaActs.settled {value : Except Int U64} (h : PaActs dmaBuf acts (some value)) :
    Settled (holdings acts) := by
  generalize hpa : some value = pa at h
  cases h with
  | unattached | unmappable => cases hpa
  | @mapped attach sgt =>
      have hmapping : Settled [Loan.take (Hold.mapping attach), .give (.mapping attach)] :=
        settled_nil.between _
      exact hmapping.between (.attachment attach)

/-! ## The loop -/

/-- The acts of the loop over some descriptors, with its result: the last buffer or an error. -/
inductive LoopActs : List U32 → Option Nat → List RequestAct →
    Option (Except Int (Option Nat)) → Prop where
  | nil (last : Option Nat) : LoopActs [] last [] (some (.ok last))
  | notFound {i : U32} {rest : List U32} {last : Option Nat} :
      LoopActs (i :: rest) last [.notFound] (some (.error (-EFAULT)))
  | crash {i : U32} {rest : List U32} {last : Option Nat} {dmaBuf : Nat} {acts : List RequestAct} :
      PaActs dmaBuf acts none → LoopActs (i :: rest) last (.found dmaBuf :: acts) none
  | broken {i : U32} {rest : List U32} {last : Option Nat} {dmaBuf : Nat} {acts : List RequestAct}
      {ret : Int} : PaActs dmaBuf acts (some (.error ret)) →
      LoopActs (i :: rest) last (.found dmaBuf :: acts) (some (.error (-EINVAL)))
  | next {i : U32} {rest : List U32} {last : Option Nat} {dmaBuf : Nat}
      {acts acts' : List RequestAct} {pa : U64} {result : Option (Except Int (Option Nat))} :
      PaActs dmaBuf acts (some (.ok pa)) → LoopActs rest (some dmaBuf) acts' result →
      LoopActs (i :: rest) last (.found dmaBuf :: (acts ++ acts')) result

theorem translateLoop_shows (indices : List U32) (last : Option Nat) (scmArgs : Vector U64 10) :
    (translateLoop indices last scmArgs).Shows requestObserver fun acts result =>
      LoopActs indices last acts (result.map (Except.map Prod.fst)) := by
  induction indices generalizing last scmArgs with
  | nil => exact shows_pure (.nil last)
  | cons i rest ih =>
      refine shows_call fun got _ => ?_
      cases got with
      | null | err _ => exact shows_pure .notFound
      | ptr dmaBuf =>
          refine shows_bind (getPaFromDmabufFd_shows dmaBuf) ?_ ?_
          · intro acts pa hacts
            cases pa with
            | error ret =>
                refine shows_pure ?_
                rw [List.append_nil]
                exact .broken hacts
            | ok pa =>
                refine (ih _ _).mono fun acts' result hrest => ?_
                show LoopActs _ _ (.found dmaBuf :: (acts ++ acts')) _
                exact .next hacts hrest
          · intro acts hacts
            exact .crash hacts

/-- Which holds are references. -/
def Hold.isReference : Hold → Bool
  | .reference _ => true
  | .attachment _ | .mapping _ => false

/-- The number of references that are taken. -/
def takenReferences (acts : List RequestAct) : Nat :=
  (taken (holdings acts)).countP fun hold => hold.isReference

/-- The number of references that are put. -/
def givenReferences (acts : List RequestAct) : Nat :=
  (given (holdings acts)).countP fun hold => hold.isReference

@[simp] theorem takenReferences_append :
    takenReferences (acts ++ acts') = takenReferences acts + takenReferences acts' := by
  simp [takenReferences]

@[simp] theorem givenReferences_append :
    givenReferences (acts ++ acts') = givenReferences acts + givenReferences acts' := by
  simp [givenReferences]

@[simp] theorem takenReferences_found {dmaBuf : Nat} :
    takenReferences (.found dmaBuf :: acts) = takenReferences acts + 1 :=
  Multiset.countP_cons_of_pos _ rfl

@[simp] theorem givenReferences_found {dmaBuf : Nat} :
    givenReferences (.found dmaBuf :: acts) = givenReferences acts := rfl

/-- Who releases everything puts every reference. -/
theorem references_of_settled (h : Settled (holdings acts)) :
    takenReferences acts = givenReferences acts := by
  rw [takenReferences, givenReferences, h.balance]

variable {positions : List U32} {last last' : Option Nat}

/-- An attachment and a mapping do not touch the references. -/
theorem PaActs.references (h : PaActs dmaBuf acts pa) :
    takenReferences acts = 0 ∧ givenReferences acts = 0 := by
  cases h <;> exact ⟨rfl, rfl⟩

/-- The loop puts no reference. -/
theorem LoopActs.givenReferences_eq {result : Option (Except Int (Option Nat))}
    (h : LoopActs positions last acts result) : givenReferences acts = 0 := by
  induction h with
  | nil | notFound => rfl
  | crash hpa => exact hpa.references.2
  | broken hpa => exact hpa.references.2
  | next hpa _ ih => rw [givenReferences_found, givenReferences_append, hpa.references.2, ih]

/-- A loop that ends well takes a reference for each position, and keeps the last buffer. -/
theorem LoopActs.takenReferences_eq (h : LoopActs positions last acts (some (.ok last'))) :
    takenReferences acts = positions.length ∧ (last.isSome ∨ positions ≠ [] → last'.isSome) := by
  generalize hresult : some (Except.ok last') = result at h
  induction h with
  | nil last =>
      cases hresult
      exact ⟨rfl, fun h => h.resolve_right (· rfl)⟩
  | notFound | broken => cases hresult
  | crash => cases hresult
  | next hpa _ ih =>
      obtain ⟨htaken, hlast⟩ := ih hresult
      refine ⟨?_, fun _ => hlast (.inl rfl)⟩
      rw [takenReferences_found, takenReferences_append, hpa.references.1, htaken,
        List.length_cons]
      omega

/-! ## The whole translation -/

/-- `translate_fd_to_pa` for a list of positions of any length. -/
def translatePositions (positions : List U32) (scmArgs : Vector U64 10) :
    ScmProg (Except Int (Vector U64 10)) := do
  match ← translateLoop positions none scmArgs with
  | .error ret => return .error ret
  | .ok (last, scmArgs) =>
      if let some dmaBuf := last then
        perform (.dmaBufPut dmaBuf)
      return .ok scmArgs

theorem translateFdToPa_eq (dmabufFd : Vector U32 10) (noDmaFds : Nat) (scmArgs : Vector U64 10) :
    translateFdToPa dmabufFd noDmaFds scmArgs =
      translatePositions (dmabufFd.toList.take noDmaFds) scmArgs := rfl

/-- The acts of `translate_fd_to_pa`, with the error it returns if it does; the result is `none`
when an error pointer is used. -/
inductive TranslationActs (positions : List U32) :
    List RequestAct → Option (Except Int Unit) → Prop where
  | crash {acts : List RequestAct} :
      LoopActs positions none acts none → TranslationActs positions acts none
  | error {acts : List RequestAct} {ret : Int} : LoopActs positions none acts (some (.error ret)) →
      TranslationActs positions acts (some (.error ret))
  | ok {acts : List RequestAct} {last : Option Nat} :
      LoopActs positions none acts (some (.ok last)) →
      TranslationActs positions (acts ++ (last.map RequestAct.put).toList) (some (.ok ()))

theorem translatePositions_shows (positions : List U32) (scmArgs : Vector U64 10) :
    (translatePositions positions scmArgs).Shows requestObserver fun acts result =>
      TranslationActs positions acts (result.map (Except.map fun _ => ())) := by
  refine shows_bind (translateLoop_shows positions none scmArgs) ?_ fun acts hacts => .crash hacts
  intro acts value hacts
  cases value with
  | error ret =>
      refine shows_pure ?_
      rw [List.append_nil]
      exact .error hacts
  | ok pair =>
      obtain ⟨last, scmArgs'⟩ := pair
      cases last with
      | none => exact shows_pure (.ok hacts)
      | some dmaBuf =>
          exact shows_act (fun _ => .put dmaBuf) (fun _ => rfl) fun _ _ => shows_pure (.ok hacts)

/-- Everything that was taken is released once, and no error pointer was used. -/
def Released {α : Type} (acts : List RequestAct) (result : Option α) : Prop :=
  result.isSome ∧ Settled (holdings acts)

/-- When the translation releases everything: there is nothing to translate, or no buffer is found
at the first position, or there is one position and its buffer is mapped as one segment. -/
def TranslationFits (positions : List U32) (acts : List RequestAct) : Prop :=
  positions = [] ∨ acts.head? = some .notFound ∨
    (positions.length = 1 ∧ MapsWhole acts)

variable {i j : U32} {rest : List U32} {result : Option (Except Int Unit)}

theorem TranslationActs.nil (h : TranslationActs [] acts result) : acts = [] ∧ result.isSome := by
  cases h with
  | crash hloop => cases hloop
  | error hloop => cases hloop
  | ok hloop =>
      cases hloop
      exact ⟨rfl, rfl⟩

/-- Either the first position has no buffer, or its reference is taken. -/
theorem TranslationActs.cons (h : TranslationActs (i :: rest) acts result) :
    (acts = [.notFound] ∧ result.isSome) ∨ acts.head? ≠ some .notFound := by
  cases h with
  | crash hloop => cases hloop <;> exact .inr nofun
  | error hloop =>
      cases hloop with
      | notFound => exact .inl ⟨rfl, rfl⟩
      | broken => exact .inr nofun
      | next => exact .inr nofun
  | ok hloop =>
      cases hloop
      exact .inr nofun

/-- The references of a translation that returns: an error keeps them all, and otherwise one is
put. -/
theorem TranslationActs.references (h : TranslationActs (i :: rest) acts result)
    (hfound : acts.head? ≠ some .notFound) (hresult : result.isSome) :
    (givenReferences acts = 0 ∧ 0 < takenReferences acts ∧ ∃ ret, result = some (.error ret)) ∨
      (givenReferences acts = 1 ∧ takenReferences acts = rest.length + 1 ∧
        result = some (.ok ())) := by
  cases h with
  | crash => cases hresult
  | error hloop =>
      refine .inl ⟨hloop.givenReferences_eq, ?_, _, rfl⟩
      cases hloop with
      | notFound => exact absurd rfl hfound
      | broken => simp
      | next => simp
  | ok hloop =>
      obtain ⟨htaken, hlast⟩ := hloop.takenReferences_eq
      obtain ⟨dmaBuf, rfl⟩ := Option.isSome_iff_exists.mp (hlast (.inr nofun))
      refine .inr ⟨?_, ?_, rfl⟩
      · rw [givenReferences_append, hloop.givenReferences_eq]
        rfl
      · rw [takenReferences_append, htaken]
        rfl

/-- With several positions all but the last reference are kept. -/
theorem TranslationActs.released_several (h : TranslationActs (i :: j :: rest) acts result) :
    Released acts result ↔ acts.head? = some .notFound := by
  obtain ⟨rfl, hresult⟩ | hfound := h.cons
  · exact iff_of_true ⟨hresult, rfl⟩ rfl
  · refine iff_of_false ?_ hfound
    intro ⟨hresult, hsettled⟩
    have hbalance := references_of_settled hsettled
    obtain ⟨hgiven, htaken, _⟩ | ⟨hgiven, htaken, _⟩ := h.references hfound hresult
    · omega
    · rw [List.length_cons] at htaken
      omega

/-- A single reference is put if its buffer is mapped as one segment. -/
theorem TranslationActs.released_one (h : TranslationActs [i] acts result) :
    Released acts result ↔ acts.head? = some .notFound ∨ MapsWhole acts := by
  obtain ⟨rfl, hresult⟩ | hfound := h.cons
  · exact iff_of_true ⟨hresult, rfl⟩ (.inl rfl)
  · rw [or_iff_right hfound]
    cases h with
    | crash hloop =>
        refine iff_of_false (fun h => nomatch h.1) ?_
        cases hloop with
        | crash hpa =>
            rw [mapsWhole_found, hpa.mapsWhole_iff]
            exact nofun
        | next _ hrest => cases hrest
    | error hloop =>
        refine iff_of_false ?_ ?_
        · intro ⟨_, hsettled⟩
          have hbalance := references_of_settled hsettled
          have hgiven := hloop.givenReferences_eq
          cases hloop with
          | notFound => exact hfound rfl
          | broken =>
              rw [takenReferences_found] at hbalance
              omega
          | next _ hrest => cases hrest
        · cases hloop with
          | notFound => exact absurd rfl hfound
          | broken hpa =>
              rw [mapsWhole_found, hpa.mapsWhole_iff]
              exact nofun
          | next _ hrest => cases hrest
    | ok hloop =>
        cases hloop with
        | next hpa hrest =>
            cases hrest
            refine iff_of_true ⟨rfl, ?_⟩ ?_
            · rw [List.append_nil, List.cons_append, holdings_found, holdings_append]
              exact hpa.settled.between _
            · rw [List.append_nil]
              have hwhole := hpa.mapsWhole_iff.mpr ⟨_, rfl⟩
              exact (mapsWhole_found.mpr hwhole).append _

/-- The translation releases everything it takes exactly under its condition. -/
theorem translatePositions_released_iff (positions : List U32) (scmArgs : Vector U64 10)
    {trace : List (Event ScmCall)} {result : Option (Except Int (Vector U64 10))}
    (h : Runs (translatePositions positions scmArgs) trace result) :
    Released (requestObserver.actions trace) result ↔
      TranslationFits positions (requestObserver.actions trace) := by
  have hacts := (translatePositions_shows positions scmArgs).exec requestObserver_admits h
  have hreleased : Released (requestObserver.actions trace) result ↔
      Released (requestObserver.actions trace) (result.map (Except.map fun _ => ())) := by
    rw [Released, Released, Option.isSome_map]
  rw [hreleased]
  cases positions with
  | nil =>
      obtain ⟨hnone, hresult⟩ := hacts.nil
      exact iff_of_true ⟨hresult, by rw [hnone]; rfl⟩ (.inl rfl)
  | cons i rest =>
      cases rest with
      | nil =>
          rw [hacts.released_one]
          simp [TranslationFits]
      | cons j rest =>
          rw [hacts.released_several]
          simp [TranslationFits]

/-- The calls of a translation of position 2 whose buffer is found, attached and mapped. -/
def mappedCalls (sgt : SgTable) : List (Event ScmCall) :=
  [⟨.dmaBufGet 7, .ptr 0⟩, ⟨.dmaBufAttach 0, some 0⟩, ⟨.dmaBufMapAttachment 0, some sgt⟩,
    ⟨.dmaBufUnmapAttachment 0, ()⟩, ⟨.dmaBufDetach 0 0, ()⟩]

/-- A buffer mapped as one segment is released. -/
theorem translatePositions_released_whole :
    ∃ trace result, Runs (translatePositions [2] (Vector.replicate 10 7)) trace result ∧
      (Released (requestObserver.actions trace) result ↔
        TranslationFits [2] (requestObserver.actions trace)) := by
  have hruns : Runs (translatePositions [2] (Vector.replicate 10 7))
      (mappedCalls ⟨1, 4096⟩ ++ [⟨.dmaBufPut 0, ()⟩])
      (some (.ok ((Vector.replicate 10 7).setIfInBounds 2 4096))) :=
    .call rfl (.call rfl (.call rfl (.call rfl (.call rfl (.call rfl (.ret _ _))))))
  exact ⟨_, _, hruns, translatePositions_released_iff [2] _ hruns⟩

/-- The reference on a buffer mapped as two segments is never put. -/
theorem scattered_not_released :
    ¬ ∀ (positions : List U32) (scmArgs : Vector U64 10) (trace : List (Event ScmCall))
      (result : Option (Except Int (Vector U64 10))),
      Runs (translatePositions positions scmArgs) trace result →
      Released (requestObserver.actions trace) result := by
  intro h
  have hruns : Runs (translatePositions [2] (Vector.replicate 10 7)) (mappedCalls ⟨2, 4096⟩)
      (some (.error (-EINVAL))) :=
    .call rfl (.call rfl (.call rfl (.call rfl (.call rfl (.ret _ _)))))
  have hsettled := (h [2] _ _ _ hruns).2
  exact absurd (references_of_settled hsettled) (by decide)

end SafeLinux.ScmIntf
