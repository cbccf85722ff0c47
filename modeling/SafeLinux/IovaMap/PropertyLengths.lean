import SafeLinux.Effects.Free
import SafeLinux.IovaMap.Region

/-!
# The length of a property

`of_property_walk_each_entry` on the machine's integers: the length in bytes is divided by the size
of a cell first, the sum of the cell counts is an `int`, and the loop advances its pointer by that
sum. `walkProperty_eq` says that for sums that are an `int` this is the walk of the driver.

The division drops the bytes after the last cell before the length is checked. So a length is walked
that is no whole number of entries when its cells are; `walksWhole_iff` says for which lengths and
counts the walk is what it is meant to be.
-/

namespace SafeLinux.IovaMap

open Effects
open Effects.Program (perform)

/-! ## The walk on machine integers -/

/-- The sum of two `int`s. -/
def intAdd (a b : Nat) : Int := (BitVec.ofNat 32 (a + b)).toInt

/-- The loop of `of_property_walk_each_entry`. The pointer `p` and `property_end` count cells from
the start of the property. The first argument bounds the turns; without turns left it returns
`none`. -/
def walkLoop {Call : Type → Type} {σ : Type} (cb : Int → σ → Program Call (Int × σ))
    (stride propertyEnd : Int) : Nat → Int → σ → Program Call (Option Int × σ)
  | 0, _, arg => return (none, arg)
  | turns + 1, p, arg =>
      if p < propertyEnd then do
        let (ret, arg) ← cb p arg
        if ret ≠ 0 then
          return (some ret, arg)
        walkLoop cb stride propertyEnd turns (p + stride) arg
      else return (some 0, arg)

/-- `of_property_walk_each_entry`, of a property of `len` bytes. -/
def walkProperty {Call : Type → Type} {σ : Type} (len naddr nsize : Nat)
    (cb : Int → σ → Program Call (Int × σ)) (turns : Nat) (arg : σ) :
    Program Call (Option Int × σ) :=
  let cells : Nat := len / 4
  if naddr = 0 ∨ nsize = 0 ∨ (cells : Int).tmod (intAdd naddr nsize) ≠ 0 then
    return (some (-EINVAL), arg)
  else
    walkLoop cb (intAdd naddr nsize) cells turns 0 arg

/-- The callback, called on the entry at a pointer: its return value. -/
inductive EntryCall : Type → Type where
  | rangePropEntryCbFn (p : Int) : EntryCall Int

/-- A callback whose result is open. -/
def anyCallback (p : Int) (arg : Unit) : Program EntryCall (Int × Unit) := do
  let ret ← perform (.rangePropEntryCbFn p)
  return (ret, arg)

/-! ## What the walk is meant to be -/

/-- A walk over entries of `size` cells, from the entry `i` on: where the callback was called and
what it returned, and the result, which is missing when the walk has not come to its end. Every
entry is complete and inside the property; the walk goes on after 0 and stops at any other result,
and returns 0 where the property ends. -/
inductive Walk (len size : Nat) : Nat → List (Int × Int) → Option Int → Prop where
  | finished {i : Nat} (hend : 4 * (i * size) = len) : Walk len size i [] (some 0)
  | paused {i : Nat} : Walk len size i [] none
  | stopped {i : Nat} {ret : Int} (hinside : 4 * ((i + 1) * size) ≤ len) (hret : ret ≠ 0) :
      Walk len size i [((i * size : Nat), ret)] (some ret)
  | next {i : Nat} {calls : List (Int × Int)} {result : Option Int}
      (hinside : 4 * ((i + 1) * size) ≤ len) (hrest : Walk len size (i + 1) calls result) :
      Walk len size i (((i * size : Nat), 0) :: calls) result

/-- A property of a whole number of entries is walked from its first entry, and any other is
rejected. -/
inductive WalksEntries (len size : Nat) : List (Int × Int) → Option Int → Prop where
  | rejected (hbroken : ¬ 4 * size ∣ len) : WalksEntries len size [] (some (-EINVAL))
  | walked {calls : List (Int × Int)} {result : Option Int} (hwhole : 4 * size ∣ len)
      (hwalk : Walk len size 0 calls result) : WalksEntries len size calls result

/-- Where the callback was called, and what it returned. -/
def entryOf : Event EntryCall → Int × Int
  | ⟨.rangePropEntryCbFn p, ret⟩ => (p, ret)

/-- Whatever the callback returns, the walk is what it is meant to be, and it comes to its end. -/
def WalksWhole (len naddr nsize : Nat) : Prop :=
  ∀ turns trace result, Runs (walkProperty len naddr nsize anyCallback turns ()) trace result →
    ∃ ret, result = some (ret, ()) ∧ WalksEntries len (naddr + nsize) (trace.map entryOf) ret ∧
      (len < turns → ret ≠ none)

/-! ## The walk of the driver -/

theorem length_be32Cells (value : List (BitVec 8)) :
    (be32Cells value).length = value.length / 4 := by
  fun_induction be32Cells value with
  | case1 b₀ b₁ b₂ b₃ rest ih =>
      simp only [List.length_cons, ih]
      omega
  | case2 value hshort =>
      have hlength : value.length < 4 := by
        by_contra hlong
        match value, hlong, hshort with
        | b₀ :: b₁ :: b₂ :: b₃ :: rest, _, hshort => exact hshort b₀ b₁ b₂ b₃ rest rfl
        | [], hlong, _ | [_], hlong, _ | [_, _], hlong, _ | [_, _, _], hlong, _ => simp at hlong
      rw [List.length_nil]
      omega

/-- A sum that is an `int`. -/
theorem intAdd_eq {a b : Nat} (h : a + b < 2 ^ 31) : intAdd a b = (a + b : Nat) := by
  rw [intAdd, BitVec.toInt_eq_toNat_cond, BitVec.toNat_ofNat]
  omega

section

variable {Call : Type → Type} {σ : Type} {naddr nsize : Nat}
  {cb : List U32 → (naddr nsize : Nat) → σ → Program Call (Int × σ)}

/-- The loop on machine integers is the loop of the driver over the rest of the property. -/
theorem walkLoop_eq {cells : List U32} {p turns : Nat} {arg : σ} (hpos : 0 < naddr + nsize)
    (hturns : 0 < turns) (henough : cells.length < p + turns) :
    walkLoop (fun p => cb (cells.drop p.toNat) naddr nsize) (naddr + nsize : Nat) cells.length turns
        p arg =
      walkEntries cb naddr nsize (cells.drop p) arg >>= fun (ret, arg) =>
        pure (some ret, arg) := by
  induction turns generalizing p arg with
  | zero => omega
  | succ turns ih =>
      unfold walkLoop
      by_cases hp : p < cells.length
      · have hdrop : cells.drop p = cells[p] :: cells.drop (p + 1) := List.drop_eq_getElem_cons hp
        have hrest : (cells.drop (p + 1)).drop (naddr + nsize - 1) =
            cells.drop (p + (naddr + nsize)) := by
          rw [List.drop_drop]
          congr 1
          omega
        rw [if_pos (by omega), hdrop, walkEntries, Program.bind_assoc]
        show cb (cells.drop p) naddr nsize arg >>= _ = _
        rw [hdrop]
        refine congrArg (_ >>= ·) (funext fun returned => ?_)
        obtain ⟨ret, arg'⟩ := returned
        show (if ret ≠ 0 then _ else _) = (if ret ≠ 0 then _ else _) >>= _
        by_cases hret : ret ≠ 0
        · rw [if_pos hret, if_pos hret]
          rfl
        · rw [if_neg hret, if_neg hret, hrest]
          exact ih (by omega) (by omega)
      · rw [if_neg (by omega), List.drop_eq_nil_of_le (by omega), walkEntries]
        rfl

/-- For cell counts whose sum is an `int`, the walk on machine integers is the walk of the driver,
as soon as it has a turn for each cell. -/
theorem walkProperty_eq {dev : OfDevice} {np : DeviceNode} {propname : String}
    {value : List (BitVec 8)} {turns : Nat} {arg : σ}
    (hnode : qcomIommuGroupParsePhandle dev = some np) (hvalue : np.properties propname = some value)
    (hsum : np.nAddrCells + np.nSizeCells < 2 ^ 31) (hturns : value.length / 4 < turns) :
    walkProperty value.length np.nAddrCells np.nSizeCells
        (fun p => cb ((be32Cells value).drop p.toNat) np.nAddrCells np.nSizeCells) turns arg =
      ofPropertyWalkEachEntry dev propname cb arg >>= fun (ret, arg) => pure (some ret, arg) := by
  unfold walkProperty ofPropertyWalkEachEntry
  simp only [hnode, hvalue]
  have hcells := length_be32Cells value
  have hcheck : ((value.length / 4 : Nat) : Int).tmod (intAdd np.nAddrCells np.nSizeCells) ≠ 0 ↔
      (be32Cells value).length % (np.nAddrCells + np.nSizeCells) ≠ 0 := by
    rw [intAdd_eq hsum, hcells, ← Int.ofNat_tmod]
    exact Int.natCast_ne_zero
  simp only [hcheck]
  by_cases hcounts : np.nAddrCells = 0 ∨ np.nSizeCells = 0 ∨
      (be32Cells value).length % (np.nAddrCells + np.nSizeCells) ≠ 0
  · rw [if_pos hcounts, if_pos hcounts]
    rfl
  · rw [if_neg hcounts, if_neg hcounts, intAdd_eq hsum, ← hcells]
    have hpos : 0 < np.nAddrCells + np.nSizeCells := by omega
    exact walkLoop_eq hpos (by omega) (by omega)

end

/-! ## When the walk is what it is meant to be -/

variable {len naddr nsize size turns i : Nat} {trace : List (Event EntryCall)}
  {result : Option (Option Int × Unit)}

/-- An entry that starts inside a property of a whole number of entries ends inside it. -/
theorem entry_inside (hwhole : 4 * size ∣ len) (hstart : i * size < len / 4) :
    4 * ((i + 1) * size) ≤ len := by
  obtain ⟨count, rfl⟩ := hwhole
  have hcells : 4 * size * count / 4 = count * size := by
    rw [Nat.mul_assoc, Nat.mul_div_cancel_left _ (by decide), Nat.mul_comm]
  rw [hcells] at hstart
  have hbefore : i + 1 ≤ count := Nat.lt_of_mul_lt_mul_right hstart
  calc 4 * ((i + 1) * size) ≤ 4 * (count * size) :=
        Nat.mul_le_mul_left 4 (Nat.mul_le_mul_right size hbefore)
    _ = 4 * size * count := by rw [Nat.mul_comm count size, Nat.mul_assoc]

/-- The loop over a whole number of entries. -/
theorem walkLoop_walk {stride : Int} (hwhole : 4 * size ∣ len) (hsize : 0 < size)
    (hstride : 0 < len → stride = size) (hi : 4 * (i * size) ≤ len)
    (h : Runs (walkLoop anyCallback stride (len / 4 : Nat) turns (i * size : Nat) ()) trace result) :
    ∃ ret, result = some (ret, ()) ∧ Walk len size i (trace.map entryOf) ret ∧
      (len < i + turns → ret ≠ none) := by
  induction turns generalizing i trace with
  | zero =>
      unfold walkLoop at h
      cases h
      refine ⟨none, rfl, .paused, fun hlen => ?_⟩
      have hle : i ≤ i * size := Nat.le_mul_of_pos_right i hsize
      omega
  | succ turns ih =>
      unfold walkLoop at h
      by_cases hp : i * size < len / 4
      · rw [if_pos (Int.ofNat_lt.mpr hp)] at h
        have hinside := entry_inside hwhole hp
        have hnext : ((i * size : Nat) : Int) + stride = ((i + 1) * size : Nat) := by
          rw [hstride (by omega), Nat.succ_mul]
          push_cast
          rfl
        cases h with
        | @halt β hempty => exact (hempty.false (0 : Int)).elim
        | @call β request next s s' s'' ret rest result _ hrest =>
            have hrest' : Runs (if ret ≠ 0 then pure (some ret, ())
                else walkLoop anyCallback stride (len / 4 : Nat) turns
                  (((i * size : Nat) : Int) + stride) ()) rest result := hrest
            by_cases hret : ret ≠ 0
            · rw [if_pos hret] at hrest'
              cases hrest'
              exact ⟨some ret, rfl, .stopped hinside hret, fun _ => nofun⟩
            · rw [if_neg hret, hnext] at hrest'
              obtain rfl : ret = 0 := not_not.mp hret
              obtain ⟨last, hresult, hwalk, hends⟩ := ih hinside hrest'
              exact ⟨last, hresult, .next hinside hwalk, fun hlen => hends (by omega)⟩
      · rw [if_neg (by omega)] at h
        cases h
        have hcells : 4 ∣ len := Nat.dvd_trans (Nat.dvd_mul_right 4 size) hwhole
        exact ⟨some 0, rfl, .finished (by omega), fun _ => nofun⟩

/-- A length that is a whole number of entries passes the check. -/
theorem check_of_whole (hlen : len < 2 ^ 31) (hwhole : 4 * (naddr + nsize) ∣ len) :
    ((len / 4 : Nat) : Int).tmod (intAdd naddr nsize) = 0 := by
  obtain ⟨count, rfl⟩ := hwhole
  have hcells : 4 * (naddr + nsize) * count / 4 = (naddr + nsize) * count := by
    rw [Nat.mul_assoc, Nat.mul_div_cancel_left _ (by decide)]
  rw [hcells]
  by_cases hsum : naddr + nsize < 2 ^ 31
  · rw [intAdd_eq hsum, ← Int.ofNat_tmod, Nat.mul_mod_right]
    rfl
  · -- Such an entry is longer than any property, so the property is empty.
    obtain rfl : count = 0 := by
      by_contra hcount
      have hle : 4 * (naddr + nsize) ≤ 4 * (naddr + nsize) * count :=
        Nat.le_mul_of_pos_right _ (Nat.pos_of_ne_zero hcount)
      omega
    rw [Nat.mul_zero]
    exact Int.zero_tmod _

/-- The walk is what it is meant to be if and only if the length is a whole number of entries or the
check rejects it. -/
theorem walksWhole_iff (hlen : len < 2 ^ 31) (hnaddr : 0 < naddr ∧ naddr < 2 ^ 31)
    (hnsize : 0 < nsize ∧ nsize < 2 ^ 31) :
    WalksWhole len naddr nsize ↔
      4 * (naddr + nsize) ∣ len ∨ ((len / 4 : Nat) : Int).tmod (intAdd naddr nsize) ≠ 0 := by
  have hprogram : ∀ turns, walkProperty len naddr nsize anyCallback turns () =
      if ((len / 4 : Nat) : Int).tmod (intAdd naddr nsize) ≠ 0 then pure (some (-EINVAL), ())
      else walkLoop anyCallback (intAdd naddr nsize) (len / 4 : Nat) turns 0 () := by
    intro turns
    unfold walkProperty
    simp only [hnaddr.1.ne', hnsize.1.ne', false_or]
  constructor
  · intro hwalks
    by_contra hboth
    obtain ⟨hbroken, hpasses⟩ := not_or.mp hboth
    by_cases hcells : 0 < len / 4
    · -- The callback is called on the first entry and stops the walk.
      have hrun : Runs (walkProperty len naddr nsize anyCallback 1 ())
          [⟨.rangePropEntryCbFn 0, (1 : Int)⟩] (some (some 1, ())) := by
        rw [hprogram, if_neg hpasses, walkLoop, if_pos (by omega)]
        exact Runs.then (1 : Int) (.pure _)
      obtain ⟨ret, _, hwalked, _⟩ := hwalks 1 _ _ hrun
      cases hwalked with
      | walked hwhole _ => exact hbroken hwhole
    · -- The property has no whole cell, and the walk returns 0.
      have hrun : Runs (walkProperty len naddr nsize anyCallback 1 ()) [] (some (some 0, ())) := by
        rw [hprogram, if_neg hpasses, walkLoop, if_neg (by omega)]
        exact .pure _
      obtain ⟨ret, hresult, hwalked, _⟩ := hwalks 1 _ _ hrun
      obtain rfl : some 0 = ret := congrArg Prod.fst (Option.some.inj hresult)
      cases hwalked with
      | walked hwhole _ => exact hbroken hwhole
  · intro hcondition turns trace result h
    rw [hprogram] at h
    by_cases hcheck : ((len / 4 : Nat) : Int).tmod (intAdd naddr nsize) ≠ 0
    · rw [if_pos hcheck] at h
      cases h
      refine ⟨some (-EINVAL), rfl, .rejected fun hwhole => ?_, fun _ => nofun⟩
      exact hcheck (check_of_whole hlen hwhole)
    · rw [if_neg hcheck] at h
      have hwhole := hcondition.resolve_right hcheck
      have hstride : 0 < len → intAdd naddr nsize = (naddr + nsize : Nat) := by
        intro hpos
        have hle := Nat.le_of_dvd hpos hwhole
        exact intAdd_eq (by omega)
      have hstart : Runs (walkLoop anyCallback (intAdd naddr nsize) (len / 4 : Nat) turns
          ((0 * (naddr + nsize) : Nat) : Int) ()) trace result := by
        rw [Nat.zero_mul]
        exact h
      obtain ⟨ret, hresult, hwalk, hends⟩ := walkLoop_walk hwhole (by omega) hstride (by omega)
        hstart
      exact ⟨ret, hresult, .walked hwhole hwalk, fun hturns => hends (by omega)⟩

/-- A property of one entry of two cells is walked, and so is one with a byte more. -/
theorem walksWhole_iff_nine :
    WalksWhole 9 1 1 ↔ 4 * (1 + 1) ∣ 9 ∨ ((9 / 4 : Nat) : Int).tmod (intAdd 1 1) ≠ 0 :=
  walksWhole_iff (by decide) (by decide) (by decide)

/-- Not every length that is no whole number of entries is rejected. -/
theorem not_walksWhole : ¬ ∀ len naddr nsize : Nat, len < 2 ^ 31 → 0 < naddr ∧ naddr < 2 ^ 31 →
    0 < nsize ∧ nsize < 2 ^ 31 → WalksWhole len naddr nsize := by
  intro h
  have hwalks := h 9 1 1 (by decide) (by decide) (by decide)
  have hrun : Runs (walkProperty 9 1 1 anyCallback 2 ())
      [⟨.rangePropEntryCbFn 0, (0 : Int)⟩] (some (some 0, ())) := .call rfl (.ret _ ())
  obtain ⟨ret, _, hwalked, _⟩ := hwalks 2 _ _ hrun
  cases hwalked with
  | walked hwhole _ => exact absurd hwhole (by decide)

end SafeLinux.IovaMap
