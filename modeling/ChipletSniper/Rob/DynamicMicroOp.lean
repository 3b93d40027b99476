import Mathlib.Data.List.GetD
import Mathlib.Data.List.Perm.Basic
import Mathlib.Algebra.Group.Nat.Defs

/-!
# Micro-operations and their dependencies

A micro-operation depends on a range of earlier micro-operations of its own
instruction, which is stored as a length, and on the explicit ones of a list.
Removing a dependency from the middle of the range turns what lies before it
into explicit dependencies.
-/

namespace ChipletSniper.Rob

/-- `MicroOp::uop_type_t`. -/
inductive UopType where
  | invalid
  | load
  | execute
  | store
  deriving DecidableEq, Repr

/-- `MicroOp`. A register of an address is `none` if it is `DL_REG_INVALID`. -/
structure MicroOp (lastReg : Nat) where
  uopType : UopType
  membar : Bool := false
  serializing : Bool := false
  branch : Bool := false
  sourceRegisters : List (Fin lastReg) := []
  addressRegisters : List (Option (Fin lastReg)) := []
  destinationRegisters : List (Fin lastReg) := []
  deriving DecidableEq, Repr

namespace MicroOp

variable {lastReg : Nat} (op : MicroOp lastReg)

def isLoad : Bool := op.uopType = .load

def isStore : Bool := op.uopType = .store

def isMemBarrier : Bool := op.membar

end MicroOp

/-- `MAXIMUM_NUMBER_OF_DEPENDENCIES`: three source registers, and eleven for
the control flow. -/
def maximumNumberOfDependencies : Nat := 3 + 11

/-- `DynamicMicroOp`. The list is the used part of the array. -/
structure DynamicMicroOp (lastReg : Nat) where
  microOp : MicroOp lastReg
  sequenceNumber : Nat
  address : Nat := 0
  intraInstructionDependencies : Nat := 0
  microOpTypeOffset : Nat := 0
  dependencies : List Nat := []
  execLatency : Nat := 1
  branchMispredicted : Bool := false
  /-- `dCacheHitWhere` is not `UNKNOWN`. -/
  dCacheKnown : Bool := false
  /-- `iCacheHitWhere` is not `L1I`. -/
  iCacheMiss : Bool := false
  iCacheLatency : Nat := 0
  squashed : Bool := false
  last : Bool := true
  deriving DecidableEq, Repr

/-- The assertions about dependencies. -/
inductive Failure where
  /-- The array of the explicit dependencies is full. -/
  | tooManyDependencies
  /-- "Something went wrong while removing an intra-instruction dependency". -/
  | intraExhausted
  /-- "Cannot remove dependency when there are none". -/
  | noDependencies
  /-- "MicroOp dependency list does not contain ...". -/
  | notContained
  /-- `push` or `next` on a full queue. -/
  | queueFull
  /-- "Sequence number ... outside of ROB". -/
  | outsideOfRob
  /-- The other assertions of the ROB timer. -/
  | asserted
  deriving DecidableEq, Repr

/-- `Tools::swap`. -/
def swap (array : List Nat) (idx1 idx2 : Nat) : List Nat :=
  (array.set idx1 (array.getD idx2 0)).set idx2 (array.getD idx1 0)

namespace DynamicMicroOp

variable {lastReg : Nat} (uop : DynamicMicroOp lastReg)

/-- The numbers of the range do not wrap around. -/
def inRange : Prop :=
  uop.microOpTypeOffset + uop.intraInstructionDependencies ≤ uop.sequenceNumber

instance : Decidable uop.inRange :=
  inferInstanceAs (Decidable (_ ≤ _))

/-- The number of the first micro-operation that it depends on within its
instruction, as an unsigned number of 64 bits. -/
def firstIntra : Nat :=
  if uop.inRange then
    uop.sequenceNumber - uop.microOpTypeOffset -
      uop.intraInstructionDependencies
  else
    uop.sequenceNumber + 2 ^ 64 - uop.microOpTypeOffset -
      uop.intraInstructionDependencies

def getDependenciesLength : Nat :=
  uop.intraInstructionDependencies + uop.dependencies.length

def getDependency (index : Nat) : Option Nat :=
  if index < uop.intraInstructionDependencies then
    some (uop.firstIntra + index)
  else
    uop.dependencies[index - uop.intraInstructionDependencies]?

def addDependency (sequenceNumber : Nat) :
    Except Failure (DynamicMicroOp lastReg) :=
  if sequenceNumber ∈ uop.dependencies then
    .ok uop
  else if uop.dependencies.length < maximumNumberOfDependencies then
    .ok { uop with dependencies := uop.dependencies ++ [sequenceNumber] }
  else
    .error .tooManyDependencies

/-- The loop of `removeDependency`, with the length of the range and the
array. `last` is the number behind the range. -/
def convertIntra (sequenceNumber last : Nat) :
    Nat → List Nat → Except Failure (Nat × List Nat)
  | 0, dependencies => .ok (0, dependencies)
  | length + 1, dependencies =>
      if sequenceNumber = last - (length + 1) then
        .ok (length + 1, dependencies)
      else if dependencies.length + 1 < maximumNumberOfDependencies then
        convertIntra sequenceNumber last length
          (dependencies ++ [last - (length + 1)])
      else
        .error .tooManyDependencies

/-- The explicit part of `removeDependency`. -/
def removeExplicit (sequenceNumber : Nat) (dependencies : List Nat) :
    Except Failure (List Nat) :=
  if dependencies.length = 0 then
    .error .noDependencies
  else if dependencies.getLast? = some sequenceNumber then
    .ok dependencies.dropLast
  else
    match dependencies.idxOf? sequenceNumber with
    | none => .error .notContained
    | some idx =>
        .ok (swap dependencies idx (dependencies.length - 1)).dropLast

def removeDependency (sequenceNumber : Nat) :
    Except Failure (DynamicMicroOp lastReg) :=
  if sequenceNumber ≥ uop.firstIntra then do
    let (length, dependencies) ← convertIntra sequenceNumber
      (uop.sequenceNumber - uop.microOpTypeOffset)
      uop.intraInstructionDependencies uop.dependencies
    if 0 < length then
      return { uop with
        intraInstructionDependencies := length - 1
        dependencies := dependencies }
    else
      throw .intraExhausted
  else do
    let dependencies ← removeExplicit sequenceNumber uop.dependencies
    return { uop with dependencies := dependencies }

/-- What `getDependency` enumerates. -/
def dependencyList : List Nat :=
  (List.range uop.getDependenciesLength).filterMap uop.getDependency

end DynamicMicroOp

/-! ## The explicit dependencies -/

theorem swap_perm {array : List Nat} {idx1 idx2 : Nat}
    (first : idx1 < array.length) (second : idx2 < array.length) :
    (swap array idx1 idx2).Perm array := by
  rw [swap, List.getD_eq_getElem _ _ first, List.getD_eq_getElem _ _ second]
  exact List.set_set_perm first second

theorem getElem?_swap_right {array : List Nat} {idx1 idx2 : Nat}
    (first : idx1 < array.length) (second : idx2 < array.length) :
    (swap array idx1 idx2)[idx2]? = array[idx1]? := by
  rw [swap, List.getElem?_set_self (by simpa using second),
    List.getD_eq_getElem _ _ first, List.getElem?_eq_getElem first]

/-- A list that ends with an item, without its end. -/
theorem dropLast_perm_erase {array source : List Nat} {item : Nat}
    (ends : array.getLast? = some item) (perm : array.Perm source) :
    array.dropLast.Perm (source.erase item) := by
  have split : array = array.dropLast ++ [item] :=
    (List.dropLast_append_getLast? item ends).symm
  have member : item ∈ source := by
    apply perm.mem_iff.mp
    rw [split]
    simp
  apply List.Perm.cons_inv (a := item)
  have moved : (item :: array.dropLast).Perm array := by
    nth_rewrite 2 [split]
    exact (List.perm_append_singleton _ _).symm
  exact (moved.trans perm).trans (List.perm_cons_erase member)

theorem removeExplicit_of_mem {sequenceNumber : Nat} {dependencies : List Nat}
    (member : sequenceNumber ∈ dependencies) :
    ∃ rest,
      DynamicMicroOp.removeExplicit sequenceNumber dependencies = .ok rest ∧
        rest.Perm (dependencies.erase sequenceNumber) := by
  have nonempty : 0 < dependencies.length := List.length_pos_of_mem member
  unfold DynamicMicroOp.removeExplicit
  rw [if_neg (by omega)]
  by_cases ends : dependencies.getLast? = some sequenceNumber
  · rw [if_pos ends]
    exact ⟨_, rfl, dropLast_perm_erase ends (List.Perm.refl _)⟩
  · rw [if_neg ends]
    cases found : dependencies.idxOf? sequenceNumber with
    | none => exact absurd member (List.idxOf?_eq_none_iff.mp found)
    | some idx =>
        obtain ⟨before, same, -⟩ := List.idxOf?_eq_some_iff.mp found
        refine ⟨_, rfl, dropLast_perm_erase ?_ (swap_perm before (by omega))⟩
        have length : (swap dependencies idx (dependencies.length - 1)).length =
            dependencies.length := by
          simp [swap]
        rw [List.getLast?_eq_getElem?, length,
          getElem?_swap_right before (by omega), List.getElem?_eq_getElem before]
        simpa using same

/-! ## The range -/

namespace DynamicMicroOp

theorem filterMap_getElem? (items : List Nat) :
    (List.range items.length).filterMap (fun index => items[index]?) = items := by
  induction items with
  | nil => rfl
  | cons head tail ih =>
      rw [List.length_cons, List.range_succ_eq_map, List.filterMap_cons,
        List.filterMap_map]
      simpa using ih

/-- The loop stops at a number of the range, and what lies before it becomes
explicit. -/
theorem convertIntra_reach {last kept : Nat} (positive : 0 < kept)
    (converted : Nat) (dependencies : List Nat)
    (enough : kept + converted ≤ last) :
    convertIntra (last - kept) last (kept + converted) dependencies =
      if converted = 0 ∨
          dependencies.length + converted < maximumNumberOfDependencies then
        .ok (kept,
          dependencies ++ List.range' (last - (kept + converted)) converted)
      else
        .error .tooManyDependencies := by
  induction converted generalizing dependencies with
  | zero =>
      obtain ⟨length, rfl⟩ : ∃ length, kept = length + 1 :=
        ⟨kept - 1, by omega⟩
      simp [convertIntra]
  | succ converted ih =>
      have later : ¬ last - kept = last - (kept + converted + 1) := by omega
      rw [← Nat.add_assoc, convertIntra, if_neg later]
      by_cases room :
          dependencies.length + (converted + 1) < maximumNumberOfDependencies
      · rw [if_pos (by omega), if_pos (Or.inr room),
          ih _ (by omega), if_pos (by simp; omega)]
        have next : last - (kept + converted) =
            last - (kept + converted + 1) + 1 := by
          omega
        rw [List.range'_succ, List.append_assoc, next]
        rfl
      · rw [if_neg (by omega : ¬ (converted + 1 = 0 ∨ _))]
        by_cases one : dependencies.length + 1 < maximumNumberOfDependencies
        · rw [if_pos one, ih _ (by omega), if_neg]
          simp
          omega
        · rw [if_neg one]

/-- The loop runs to the end of the range for any other number. -/
theorem convertIntra_miss {sequenceNumber last length kept : Nat}
    {dependencies rest : List Nat} (outside : last ≤ sequenceNumber)
    (enough : length ≤ last)
    (run : convertIntra sequenceNumber last length dependencies =
      .ok (kept, rest)) :
    kept = 0 := by
  induction length generalizing dependencies with
  | zero =>
      cases run
      rfl
  | succ length ih =>
      rw [convertIntra, if_neg (by omega)] at run
      split at run
      next => exact ih (by omega) run
      next => cases run

variable {lastReg : Nat} {uop : DynamicMicroOp lastReg}

theorem firstIntra_of_inRange
    (range : uop.microOpTypeOffset + uop.intraInstructionDependencies ≤
      uop.sequenceNumber) :
    uop.firstIntra = uop.sequenceNumber - uop.microOpTypeOffset -
      uop.intraInstructionDependencies :=
  if_pos range

theorem dependencyList_eq :
    uop.dependencyList =
      List.range' uop.firstIntra uop.intraInstructionDependencies ++
        uop.dependencies := by
  rw [dependencyList, getDependenciesLength, List.range_add,
    List.filterMap_append]
  congr 1
  · rw [List.range'_eq_map_range, ← List.filterMap_eq_map]
    apply List.filterMap_congr
    intro index member
    rw [getDependency, if_pos (List.mem_range.mp member)]
    rfl
  · rw [List.filterMap_map]
    refine Eq.trans (List.filterMap_congr ?_)
      (filterMap_getElem? uop.dependencies)
    intro index member
    rw [Function.comp_apply, getDependency, if_neg (by omega),
      Nat.add_sub_cancel_left]

/-- The dependencies of the range that become explicit when a number of the
range is removed. -/
def converted (uop : DynamicMicroOp lastReg) (sequenceNumber : Nat) : Nat :=
  if sequenceNumber < uop.sequenceNumber - uop.microOpTypeOffset then
    sequenceNumber - uop.firstIntra
  else 0

theorem removeDependency_outside {sequenceNumber : Nat}
    (outside : uop.sequenceNumber - uop.microOpTypeOffset ≤ sequenceNumber)
    (range : uop.microOpTypeOffset + uop.intraInstructionDependencies ≤
      uop.sequenceNumber)
    (next : DynamicMicroOp lastReg) :
    uop.removeDependency sequenceNumber ≠ .ok next := by
  intro run
  rw [removeDependency,
    if_pos (by rw [firstIntra_of_inRange range]; omega)] at run
  cases loop : convertIntra sequenceNumber
      (uop.sequenceNumber - uop.microOpTypeOffset)
      uop.intraInstructionDependencies uop.dependencies with
  | error failure =>
      rw [loop] at run
      cases run
  | ok result =>
      have empty : result.1 = 0 :=
        convertIntra_miss outside (by omega) loop
      rw [loop] at run
      change (if 0 < result.1 then _ else _) = _ at run
      rw [empty] at run
      cases run

/-- What is left when a number of the range is removed. -/
def withoutIntra (uop : DynamicMicroOp lastReg) (sequenceNumber : Nat) :
    DynamicMicroOp lastReg :=
  { uop with
    intraInstructionDependencies :=
      uop.sequenceNumber - uop.microOpTypeOffset - sequenceNumber - 1
    dependencies := uop.dependencies ++
      List.range' uop.firstIntra (uop.converted sequenceNumber) }

theorem removeDependency_inside {sequenceNumber : Nat}
    (first : uop.firstIntra ≤ sequenceNumber)
    (inside : sequenceNumber < uop.sequenceNumber - uop.microOpTypeOffset)
    (range : uop.microOpTypeOffset + uop.intraInstructionDependencies ≤
      uop.sequenceNumber) :
    uop.removeDependency sequenceNumber =
      if uop.converted sequenceNumber = 0 ∨
          uop.dependencies.length + uop.converted sequenceNumber <
            maximumNumberOfDependencies then
        .ok (uop.withoutIntra sequenceNumber)
      else
        .error .tooManyDependencies := by
  have loop := @convertIntra_reach
    (uop.sequenceNumber - uop.microOpTypeOffset)
    (uop.sequenceNumber - uop.microOpTypeOffset - sequenceNumber)
    (by omega) (uop.converted sequenceNumber) uop.dependencies
  have whole : uop.sequenceNumber - uop.microOpTypeOffset - sequenceNumber +
      uop.converted sequenceNumber = uop.intraInstructionDependencies := by
    rw [converted, if_pos inside]
    rw [firstIntra_of_inRange range] at first ⊢
    omega
  rw [whole] at loop
  rw [removeDependency, if_pos first]
  have target : uop.sequenceNumber - uop.microOpTypeOffset -
      (uop.sequenceNumber - uop.microOpTypeOffset - sequenceNumber) =
        sequenceNumber := by
    omega
  rw [target] at loop
  rw [loop (by omega)]
  split
  · change (if 0 < _ then _ else _) = _
    rw [if_pos (by omega), withoutIntra, firstIntra_of_inRange range]
    rfl
  · rfl

theorem removed_perm {sequenceNumber : Nat}
    (first : uop.firstIntra ≤ sequenceNumber)
    (inside : sequenceNumber < uop.sequenceNumber - uop.microOpTypeOffset)
    (range : uop.microOpTypeOffset + uop.intraInstructionDependencies ≤
      uop.sequenceNumber) :
    (uop.withoutIntra sequenceNumber).dependencyList.Perm
      (uop.dependencyList.erase sequenceNumber) := by
  have before : uop.converted sequenceNumber =
      sequenceNumber - uop.firstIntra := by
    rw [converted, if_pos inside]
  have split : List.range' uop.firstIntra uop.intraInstructionDependencies =
      List.range' uop.firstIntra (uop.converted sequenceNumber) ++
        sequenceNumber :: List.range' (sequenceNumber + 1)
          (uop.sequenceNumber - uop.microOpTypeOffset - sequenceNumber - 1) := by
    have place : uop.firstIntra + (sequenceNumber - uop.firstIntra) =
        sequenceNumber := by
      omega
    have joined := @List.range'_append_1 uop.firstIntra
      (sequenceNumber - uop.firstIntra)
      (uop.sequenceNumber - uop.microOpTypeOffset - sequenceNumber - 1 + 1)
    rw [place] at joined
    rw [← List.range'_succ, before, joined]
    congr 1
    rw [firstIntra_of_inRange range] at first ⊢
    omega
  have start : (uop.withoutIntra sequenceNumber).firstIntra =
      sequenceNumber + 1 := by
    rw [firstIntra_of_inRange (by simp only [withoutIntra]; omega)]
    simp only [withoutIntra]
    omega
  rw [dependencyList_eq, dependencyList_eq, start, split, List.append_assoc,
    List.erase_append_right]
  · rw [List.cons_append, List.erase_cons_head]
    simp only [withoutIntra]
    rw [← List.append_assoc]
    exact List.perm_append_comm
  · rw [List.mem_range'_1]
    omega

/-- `removeDependency` takes every number at or above the start of the range
for one of the range, and its assertion about the array leaves one place
empty. -/
theorem removeDependency_iff (uop : DynamicMicroOp lastReg)
    (sequenceNumber : Nat)
    (range : uop.microOpTypeOffset + uop.intraInstructionDependencies ≤
      uop.sequenceNumber)
    (listed : sequenceNumber ∈ uop.dependencyList)
    (room : uop.dependencies.length + uop.converted sequenceNumber ≤
      maximumNumberOfDependencies) :
    (∃ next, uop.removeDependency sequenceNumber = .ok next ∧
      next.dependencyList.Perm (uop.dependencyList.erase sequenceNumber)) ↔
    sequenceNumber < uop.sequenceNumber - uop.microOpTypeOffset ∧
      (uop.converted sequenceNumber = 0 ∨
        uop.dependencies.length + uop.converted sequenceNumber ≠
          maximumNumberOfDependencies) := by
  constructor
  · rintro ⟨next, run, -⟩
    have inside : sequenceNumber < uop.sequenceNumber - uop.microOpTypeOffset := by
      by_contra outside
      exact removeDependency_outside (by omega) range next run
    refine ⟨inside, ?_⟩
    by_cases first : uop.firstIntra ≤ sequenceNumber
    · rw [removeDependency_inside first inside range] at run
      split at run
      next kept => exact kept.imp id (fun fits => by omega)
      next => cases run
    · left
      rw [converted, if_pos inside]
      omega
  · rintro ⟨inside, fits⟩
    by_cases first : uop.firstIntra ≤ sequenceNumber
    · refine ⟨_, ?_, removed_perm first inside range⟩
      rw [removeDependency_inside first inside range, if_pos (by omega)]
    · have explicit : sequenceNumber ∈ uop.dependencies := by
        rw [dependencyList_eq, List.mem_append, List.mem_range'_1] at listed
        cases listed with
        | inl inRange => exact absurd inRange.1 first
        | inr explicit => exact explicit
      obtain ⟨rest, run, perm⟩ := removeExplicit_of_mem explicit
      refine ⟨{ uop with dependencies := rest }, ?_, ?_⟩
      · rw [removeDependency, if_neg first, run]
        rfl
      · rw [dependencyList_eq, dependencyList_eq, List.erase_append_right]
        · exact perm.append_left _
        · rw [List.mem_range'_1]
          exact fun inRange => first inRange.1

/-- The second load of an instruction, which needs the result of the first:
the dependency is explicit, and at the place where a range would start. -/
def secondLoad : DynamicMicroOp 1 where
  microOp := { uopType := .load }
  sequenceNumber := 5
  microOpTypeOffset := 1
  dependencies := [4]

theorem removeDependency_secondLoad :
    (∀ dependency ∈ secondLoad.dependencyList,
      dependency < secondLoad.sequenceNumber) ∧
    4 ∈ secondLoad.dependencyList ∧
    secondLoad.dependencies.length + secondLoad.converted 4 ≤
      maximumNumberOfDependencies ∧
    secondLoad.removeDependency 4 = .error .intraExhausted := by
  decide

/-- A store that depends on three micro-operations of its instruction and on
an earlier one. -/
def threeExecutes : DynamicMicroOp 1 where
  microOp := { uopType := .store }
  sequenceNumber := 9
  intraInstructionDependencies := 3
  dependencies := [2]

theorem removeDependency_threeExecutes :
    ∃ next, threeExecutes.removeDependency 7 = .ok next ∧
      next.dependencyList.Perm (threeExecutes.dependencyList.erase 7) :=
  (removeDependency_iff threeExecutes 7 (by decide) (by decide)
    (by decide)).mpr (by decide)

end DynamicMicroOp

end ChipletSniper.Rob
