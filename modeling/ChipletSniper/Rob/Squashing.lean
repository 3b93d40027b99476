import ChipletSniper.Rob.DynamicMicroOp
import ChipletSniper.Library.Runs
import Mathlib.Data.List.Range

/-!
# Squashed micro-operations

A load or store that touches a cache line of its instruction once more is
squashed. The dependencies within the instruction are ranges, which
`doSquashing` recomputes from the numbers of squashed micro-operations.
-/

namespace ChipletSniper.Rob

/-- A `DynamicMicroOp` of the current instruction, with what `doSquashing`
uses besides. -/
structure CurrentUop (lastReg : Nat) extends DynamicMicroOp lastReg where
  /-- `getMicroOp()->microOpTypeOffset`. -/
  staticOffset : Nat
  squashedCount : Nat := 0
  deriving DecidableEq, Repr

variable {lastReg : Nat}

/-! ## `doSquashing` -/

/-- The variables of the first loop. -/
structure Scan where
  uopType : UopType := .invalid
  microOpTypeOffset : Nat := 0
  squashedCount : Nat := 0

namespace Scan

/-- The offset that a surviving micro-operation gets. -/
def offset (scan : Scan) (uopType : UopType) : Nat :=
  if uopType = scan.uopType then scan.microOpTypeOffset else 0

def next (scan : Scan) (uop : CurrentUop lastReg) : Scan :=
  if uop.squashed then
    { scan with squashedCount := scan.squashedCount + 1 }
  else
    { uopType := uop.microOp.uopType
      microOpTypeOffset := scan.offset uop.microOp.uopType + 1
      squashedCount := scan.squashedCount }

def mark (scan : Scan) (uop : CurrentUop lastReg) : CurrentUop lastReg :=
  if uop.squashed then
    { uop with squashedCount := scan.squashedCount + 1 }
  else
    { uop with
      microOpTypeOffset := scan.offset uop.microOp.uopType
      squashedCount := scan.squashedCount }

end Scan

/-- The first loop. -/
def recalculateOffsets :
    Scan → List (CurrentUop lastReg) → List (CurrentUop lastReg)
  | _, [] => []
  | scan, uop :: rest => scan.mark uop :: recalculateOffsets (scan.next uop) rest

/-- A round of the second loop, with the squashed counts of all
micro-operations. Outside of the range nothing can be read. -/
def recalculateUop (counts : List Nat) (i : Nat) (uop : CurrentUop lastReg) :
    Except Failure (CurrentUop lastReg) :=
  if uop.squashed ∨ uop.intraInstructionDependencies = 0 then
    .ok uop
  else if i < uop.staticOffset + uop.intraInstructionDependencies then
    .error .asserted
  else
    let iBase := i - uop.staticOffset
    .ok { uop with
      intraInstructionDependencies := uop.intraInstructionDependencies -
        (counts.getD iBase 0 -
          counts.getD (iBase - uop.intraInstructionDependencies) 0) }

/-- The second loop. -/
def recalculateDependencies (counts : List Nat) :
    Nat → List (CurrentUop lastReg) →
      Except Failure (List (CurrentUop lastReg))
  | _, [] => .ok []
  | i, uop :: rest => do
      let head ← recalculateUop counts i uop
      let tail ← recalculateDependencies counts (i + 1) rest
      return head :: tail

def doSquashing (uops : List (CurrentUop lastReg)) :
    Except Failure (List (CurrentUop lastReg)) :=
  let counted := recalculateOffsets {} uops
  recalculateDependencies (counted.map (·.squashedCount)) 0 counted

/-- The surviving micro-operations are numbered consecutively. -/
def numberUops : Nat → List (CurrentUop lastReg) → List (CurrentUop lastReg)
  | _, [] => []
  | number, uop :: rest =>
      if uop.squashed then
        uop :: numberUops number rest
      else
        { uop with sequenceNumber := number } :: numberUops (number + 1) rest

/-! ## Instructions -/

/-- The loads, executes or stores of an instruction, with the offsets and the
number of dependencies that the decoder gives them. The first is never
squashed. -/
structure Stage (uopType : UopType) (dependencies : Nat)
    (uops : List (CurrentUop lastReg)) : Prop where
  uopType : ∀ uop ∈ uops, uop.microOp.uopType = uopType
  dependencies : ∀ uop ∈ uops, uop.intraInstructionDependencies = dependencies
  offset : ∀ {i : Nat} {uop : CurrentUop lastReg}, uops[i]? = some uop →
    uop.staticOffset = i
  first : ∀ uop ∈ uops.head?, uop.squashed = false

/-- An instruction: executes depend on all loads, and stores on all executes
or, if there are none, on all loads. -/
structure Instruction (lastReg : Nat) where
  loads : List (CurrentUop lastReg)
  executes : List (CurrentUop lastReg)
  stores : List (CurrentUop lastReg)
  load : Stage .load 0 loads
  execute : Stage .execute loads.length executes
  store : Stage .store
    (if executes = [] then loads.length else executes.length) stores
  executed : ∀ uop ∈ executes, uop.squashed = false

namespace Instruction

variable (instruction : Instruction lastReg)

def uops : List (CurrentUop lastReg) :=
  instruction.loads ++ instruction.executes ++ instruction.stores

/-- The type of the micro-operations that one of a given type depends on. -/
def producers : UopType → Option UopType
  | .execute => some .load
  | .store => some (if instruction.executes = [] then .load else .execute)
  | .load => none
  | .invalid => none

/-- The surviving micro-operations that another depends on. -/
def survivingProducers (uops : List (CurrentUop lastReg))
    (uop : CurrentUop lastReg) : List (CurrentUop lastReg) :=
  uops.filter fun producer => !producer.squashed &&
    decide (instruction.producers uop.microOp.uopType =
      some producer.microOp.uopType)

end Instruction

/-! ## Counting -/

def squashes (uops : List (CurrentUop lastReg)) : Nat :=
  (uops.map (·.squashed)).count true

def survivors (uops : List (CurrentUop lastReg)) : Nat :=
  (uops.map (·.squashed)).count false

theorem survivors_add_squashes (uops : List (CurrentUop lastReg)) :
    survivors uops + squashes uops = uops.length := by
  induction uops with
  | nil => rfl
  | cons uop rest ih =>
      simp only [survivors, squashes, List.map_cons, List.count_cons,
        List.length_cons] at ih ⊢
      cases uop.squashed <;> simp <;> omega

@[simp] theorem squashes_append (first second : List (CurrentUop lastReg)) :
    squashes (first ++ second) = squashes first + squashes second := by
  simp [squashes]

@[simp] theorem survivors_append (first second : List (CurrentUop lastReg)) :
    survivors (first ++ second) = survivors first + survivors second := by
  simp [survivors]

theorem survivors_cons (uop : CurrentUop lastReg)
    (rest : List (CurrentUop lastReg)) :
    survivors (uop :: rest) =
      survivors rest + if uop.squashed then 0 else 1 := by
  cases squashed : uop.squashed <;> simp [survivors, squashed]

theorem squashes_cons (uop : CurrentUop lastReg)
    (rest : List (CurrentUop lastReg)) :
    squashes (uop :: rest) =
      squashes rest + if uop.squashed then 1 else 0 := by
  cases squashed : uop.squashed <;> simp [squashes, squashed]

/-! ## The first loop -/

/-- The micro-operation with a new offset and count. -/
def CurrentUop.counted (uop : CurrentUop lastReg) (offset count : Nat) :
    CurrentUop lastReg :=
  { uop with
    microOpTypeOffset := if uop.squashed then uop.microOpTypeOffset else offset
    squashedCount := count }

theorem Scan.mark_eq (scan : Scan) (uop : CurrentUop lastReg) :
    scan.mark uop = uop.counted (scan.offset uop.microOp.uopType)
      (scan.squashedCount + if uop.squashed then 1 else 0) := by
  unfold mark CurrentUop.counted
  split
  · rfl
  · rfl

theorem Scan.next_squashedCount (scan : Scan) (uop : CurrentUop lastReg) :
    (scan.next uop).squashedCount =
      scan.squashedCount + if uop.squashed then 1 else 0 := by
  unfold next
  split <;> rfl

theorem Scan.next_offset (scan : Scan) (uop : CurrentUop lastReg) :
    (scan.next uop).offset uop.microOp.uopType =
      scan.offset uop.microOp.uopType + if uop.squashed then 0 else 1 := by
  unfold next
  split
  · rfl
  · exact if_pos rfl

/-- The first loop over micro-operations of one type. -/
theorem recalculateOffsets_typed {uopType : UopType}
    {uops : List (CurrentUop lastReg)}
    (typed : ∀ uop ∈ uops, uop.microOp.uopType = uopType) (scan : Scan) :
    recalculateOffsets scan uops = uops.mapIdx fun i uop =>
      uop.counted (scan.offset uopType + survivors (uops.take i))
        (scan.squashedCount + squashes (uops.take (i + 1))) := by
  induction uops generalizing scan with
  | nil => rfl
  | cons uop rest ih =>
      have own : uop.microOp.uopType = uopType := typed uop List.mem_cons_self
      rw [recalculateOffsets, ih fun other member =>
        typed other (List.mem_cons_of_mem uop member), List.mapIdx_cons,
        Scan.mark_eq, Scan.next_squashedCount, ← own, Scan.next_offset]
      refine congrArg₂ List.cons ?_ ?_
      · rw [List.take_succ_cons, List.take_zero, squashes_cons]
        simp [survivors, squashes]
      · congr 1
        funext i other
        rw [List.take_succ_cons, List.take_succ_cons, survivors_cons,
          squashes_cons]
        congr 1
        · omega
        · omega

/-- The scan after micro-operations. -/
def Scan.all (scan : Scan) (uops : List (CurrentUop lastReg)) : Scan :=
  uops.foldl Scan.next scan

theorem recalculateOffsets_append (scan : Scan)
    (first second : List (CurrentUop lastReg)) :
    recalculateOffsets scan (first ++ second) =
      recalculateOffsets scan first ++
        recalculateOffsets (scan.all first) second := by
  induction first generalizing scan with
  | nil => rfl
  | cons uop rest ih =>
      exact congrArg (List.cons _) (ih (scan.next uop))

/-- The type of the scan is one that it has seen. -/
theorem Scan.all_uopType (scan : Scan) (uops : List (CurrentUop lastReg)) :
    (scan.all uops).uopType = scan.uopType ∨
      ∃ uop ∈ uops, (scan.all uops).uopType = uop.microOp.uopType := by
  induction uops generalizing scan with
  | nil => exact .inl rfl
  | cons uop rest ih =>
      rw [Scan.all, List.foldl_cons, ← Scan.all]
      rcases ih (scan.next uop) with same | ⟨other, member, same⟩
      · rw [same, Scan.next]
        split
        · exact .inl rfl
        · exact .inr ⟨uop, List.mem_cons_self, rfl⟩
      · exact .inr ⟨other, List.mem_cons_of_mem uop member, same⟩

/-- The offsets start again at a type that was not seen. -/
theorem Scan.offset_of_ne {scan : Scan} {uopType : UopType}
    (different : scan.uopType ≠ uopType) : scan.offset uopType = 0 :=
  if_neg (Ne.symm different)

/-! ## The second loop -/

/-- The micro-operation with a new number of dependencies. -/
def CurrentUop.depending (uop : CurrentUop lastReg) (dependencies : Nat) :
    CurrentUop lastReg :=
  if uop.squashed then uop
  else { uop with intraInstructionDependencies := dependencies }

theorem recalculateDependencies_append {counts : List Nat} {i : Nat}
    {first second before after : List (CurrentUop lastReg)}
    (head : recalculateDependencies counts i first = .ok before)
    (tail : recalculateDependencies counts (i + first.length) second =
      .ok after) :
    recalculateDependencies counts i (first ++ second) =
      .ok (before ++ after) := by
  induction first generalizing i before with
  | nil =>
      cases head
      exact tail
  | cons uop rest ih =>
      rw [recalculateDependencies] at head
      obtain ⟨own, changed, head⟩ := Library.bind_eq_ok.mp head
      obtain ⟨others, later, head⟩ := Library.bind_eq_ok.mp head
      cases head
      have rest' := ih later (by
        rw [Nat.add_assoc, Nat.add_comm 1]
        exact tail)
      rw [List.cons_append, recalculateDependencies, changed]
      change (recalculateDependencies counts (i + 1) (rest ++ second)).bind _ = _
      rw [rest']
      rfl

/-- The second loop over micro-operations that begin at `base` and depend on
the `dependencies` ones before. -/
theorem recalculateDependencies_stage {counts : List Nat}
    {base dependencies : Nat} {uops : List (CurrentUop lastReg)}
    (room : dependencies ≤ base) (before : Nat)
    (offset : ∀ {i : Nat} {uop : CurrentUop lastReg}, uops[i]? = some uop →
      uop.staticOffset = before + i)
    (depends : ∀ uop ∈ uops, uop.intraInstructionDependencies = dependencies) :
    recalculateDependencies counts (base + before) uops =
      .ok (uops.map fun uop => uop.depending (dependencies -
        (counts.getD base 0 - counts.getD (base - dependencies) 0))) := by
  induction uops generalizing before with
  | nil => rfl
  | cons uop rest ih =>
      have own : uop.staticOffset = before := offset (i := 0) rfl
      have also := depends uop List.mem_cons_self
      have head : recalculateUop counts (base + before) uop =
          .ok (uop.depending (dependencies -
            (counts.getD base 0 - counts.getD (base - dependencies) 0))) := by
        unfold recalculateUop CurrentUop.depending
        by_cases squashed : uop.squashed = true
        · rw [if_pos (.inl squashed), if_pos squashed]
        · by_cases zero : dependencies = 0
          · rw [if_pos (.inr (also.trans zero)), if_neg squashed, zero,
              Nat.zero_sub, ← zero, ← also]
          · rw [if_neg (by simp [squashed, also, zero]), if_neg squashed,
              if_neg (by omega), own, also, Nat.add_sub_cancel]
      have later := ih (before + 1)
        (fun {i other} found => by
          have := offset (i := i + 1) found
          omega)
        fun other member => depends other (List.mem_cons_of_mem uop member)
      rw [recalculateDependencies, head]
      change (recalculateDependencies counts (base + (before + 1)) rest).bind _ =
        _
      rw [later]
      rfl

/-! ## Numbers -/

theorem numberUops_append (number : Nat)
    (first second : List (CurrentUop lastReg)) :
    numberUops number (first ++ second) =
      numberUops number first ++
        numberUops (number + survivors first) second := by
  induction first generalizing number with
  | nil => rfl
  | cons uop rest ih =>
      rw [List.cons_append, numberUops, numberUops, survivors_cons]
      split
      · rw [ih]
        rfl
      · rw [ih, Nat.add_right_comm, ← Nat.add_assoc]
        rfl

/-- A surviving micro-operation has the number of those before it. -/
theorem mem_numberUops {number : Nat} {uops : List (CurrentUop lastReg)}
    {uop : CurrentUop lastReg} (member : uop ∈ numberUops number uops)
    (surviving : uop.squashed = false) :
    ∃ (i : Nat) (old : CurrentUop lastReg),
      uops[i]? = some old ∧ old.squashed = false ∧ uop = { old with
        sequenceNumber := number + survivors (uops.take i) } := by
  induction uops generalizing number with
  | nil => cases member
  | cons head rest ih =>
      have later : ∀ {next : Nat}, uop ∈ numberUops next rest →
          next = number + survivors [head] →
          ∃ (i : Nat) (old : CurrentUop lastReg),
            (head :: rest)[i]? = some old ∧ old.squashed = false ∧
            uop = { old with sequenceNumber :=
              number + survivors ((head :: rest).take i) } := by
        intro next member same
        obtain ⟨i, old, found, alive, equal⟩ := ih member
        have numbers : next + survivors (rest.take i) =
            number + survivors ((head :: rest).take (i + 1)) := by
          have none : survivors ([] : List (CurrentUop lastReg)) = 0 := rfl
          rw [same, List.take_succ_cons, survivors_cons head [],
            survivors_cons head]
          omega
        exact ⟨i + 1, old, found, alive, numbers ▸ equal⟩
      rw [numberUops] at member
      split at member
      next squashed =>
        rcases List.mem_cons.mp member with rfl | inside
        · rw [surviving] at squashed
          cases squashed
        · refine later inside ?_
          simp [survivors, squashed]
      next alive =>
        have alive : head.squashed = false := by simpa using alive
        rcases List.mem_cons.mp member with rfl | inside
        · exact ⟨0, head, rfl, alive, rfl⟩
        · refine later inside ?_
          simp [survivors, alive]

/-- The surviving micro-operations have consecutive numbers. -/
theorem numberUops_numbers (number : Nat) (uops : List (CurrentUop lastReg)) :
    ((numberUops number uops).filter fun uop => !uop.squashed).map
        (·.sequenceNumber) =
      List.range' number (survivors uops) := by
  induction uops generalizing number with
  | nil => rfl
  | cons uop rest ih =>
      rw [numberUops, survivors_cons]
      split
      next squashed => simp [squashed, ih]
      next alive =>
        have alive : uop.squashed = false := by simpa using alive
        simp [alive, ih, List.range'_succ]

/-! ## Stages -/

namespace Stage

variable {uopType : UopType} {dependencies : Nat}
  {uops : List (CurrentUop lastReg)}

/-- A stage after both loops, for a scan that has not seen its type. -/
def settled (scan : Scan) (intra : Nat) (uops : List (CurrentUop lastReg)) :
    List (CurrentUop lastReg) :=
  (uops.mapIdx fun i uop => uop.counted (survivors (uops.take i))
    (scan.squashedCount + squashes (uops.take (i + 1)))).map
      (·.depending intra)

theorem squashed_depending (uop : CurrentUop lastReg) (intra : Nat) :
    (uop.depending intra).squashed = uop.squashed := by
  unfold CurrentUop.depending
  split <;> rfl

theorem microOp_depending (uop : CurrentUop lastReg) (intra : Nat) :
    (uop.depending intra).microOp = uop.microOp := by
  unfold CurrentUop.depending
  split <;> rfl

/-- The loops neither squash a micro-operation nor change what it is. -/
theorem settled_same (scan : Scan) (intra : Nat)
    (uops : List (CurrentUop lastReg)) :
    (settled scan intra uops).map (fun uop => (uop.microOp, uop.squashed)) =
      uops.map fun uop => (uop.microOp, uop.squashed) := by
  apply List.ext_getElem?
  intro i
  simp only [settled, List.getElem?_map, List.getElem?_mapIdx, Option.map_map]
  congr 1
  funext uop
  simp [microOp_depending, squashed_depending, CurrentUop.counted]

theorem survivors_take_settled (scan : Scan) (intra : Nat)
    (uops : List (CurrentUop lastReg)) (i : Nat) :
    survivors ((settled scan intra uops).take i) =
      survivors (uops.take i) := by
  have flags : (settled scan intra uops).map (·.squashed) =
      uops.map (·.squashed) := by
    have same := congrArg (List.map Prod.snd) (settled_same scan intra uops)
    rwa [List.map_map, List.map_map] at same
  rw [survivors, survivors, List.map_take, List.map_take, flags]

theorem survivors_settled (scan : Scan) (intra : Nat)
    (uops : List (CurrentUop lastReg)) :
    survivors (settled scan intra uops) = survivors uops := by
  have all := survivors_take_settled scan intra uops
    (max (settled scan intra uops).length uops.length)
  rwa [List.take_of_length_le (le_max_left _ _),
    List.take_of_length_le (le_max_right _ _)] at all

/-- What a surviving micro-operation of a numbered stage is. -/
structure Numbered (first intra : Nat) (uop : CurrentUop lastReg) :
    Prop where
  sequenceNumber : uop.sequenceNumber = first + uop.microOpTypeOffset
  dependencies : uop.intraInstructionDependencies = intra

theorem numbered (scan : Scan) (intra number : Nat)
    {uop : CurrentUop lastReg}
    (member : uop ∈ numberUops number (settled scan intra uops))
    (surviving : uop.squashed = false) :
    Numbered number intra uop := by
  obtain ⟨i, old, found, alive, rfl⟩ := mem_numberUops member surviving
  rw [survivors_take_settled]
  simp only [settled, List.getElem?_map, List.getElem?_mapIdx, Option.map_map,
    Option.map_eq_some_iff, Function.comp_apply] at found
  obtain ⟨source, _, rfl⟩ := found
  rw [squashed_depending] at alive
  have alive : source.squashed = false := alive
  constructor
  · simp [CurrentUop.depending, CurrentUop.counted, alive]
  · simp [CurrentUop.depending, CurrentUop.counted, alive]

theorem mem_numberUops_microOp {number : Nat}
    {items : List (CurrentUop lastReg)} {uop : CurrentUop lastReg}
    (member : uop ∈ numberUops number items) :
    ∃ old ∈ items, old.microOp = uop.microOp := by
  induction items generalizing number with
  | nil => cases member
  | cons head rest ih =>
      rw [numberUops] at member
      split at member
      · rcases List.mem_cons.mp member with rfl | later
        · exact ⟨uop, List.mem_cons_self, rfl⟩
        · obtain ⟨old, inside, same⟩ := ih later
          exact ⟨old, List.mem_cons_of_mem head inside, same⟩
      · rcases List.mem_cons.mp member with rfl | later
        · exact ⟨head, List.mem_cons_self, rfl⟩
        · obtain ⟨old, inside, same⟩ := ih later
          exact ⟨old, List.mem_cons_of_mem head inside, same⟩

/-- Numbering keeps the type of a stage. -/
theorem numbered_uopType (stage : Stage uopType dependencies uops)
    (scan : Scan) (intra number : Nat) {uop : CurrentUop lastReg}
    (member : uop ∈ numberUops number (settled scan intra uops)) :
    uop.microOp.uopType = uopType := by
  obtain ⟨old, inside, same⟩ := mem_numberUops_microOp member
  have pair := List.mem_map_of_mem
    (f := fun uop : CurrentUop lastReg => (uop.microOp, uop.squashed)) inside
  rw [settled_same] at pair
  obtain ⟨source, among, equal⟩ := List.mem_map.mp pair
  rw [← same, ← (Prod.mk.inj equal).1]
  exact stage.uopType source among

/-- The producers of a stage among the micro-operations of another. -/
theorem filter_numbered (stage : Stage uopType dependencies uops)
    (scan : Scan) (intra number : Nat) (wanted : Option UopType) :
    ((numberUops number (settled scan intra uops)).filter fun producer =>
        !producer.squashed &&
          decide (wanted = some producer.microOp.uopType)).map
        (·.sequenceNumber) =
      if wanted = some uopType then List.range' number (survivors uops)
      else [] := by
  have typed : ∀ producer ∈ numberUops number (settled scan intra uops),
      (!producer.squashed &&
        decide (wanted = some producer.microOp.uopType)) =
      (!producer.squashed && decide (wanted = some uopType)) := by
    intro producer member
    rw [stage.numbered_uopType scan intra number member]
  rw [List.filter_congr typed]
  split
  next same =>
    simp only [same, decide_true, Bool.and_true]
    rw [numberUops_numbers, survivors_settled]
  next different => simp [different]

end Stage

/-! ## The counts -/

theorem recalculateOffsets_counts (scan : Scan)
    (uops : List (CurrentUop lastReg)) :
    (recalculateOffsets scan uops).map (·.squashedCount) =
      (List.range uops.length).map fun i =>
        scan.squashedCount + squashes (uops.take (i + 1)) := by
  induction uops generalizing scan with
  | nil => rfl
  | cons uop rest ih =>
      have none : squashes ([] : List (CurrentUop lastReg)) = 0 := rfl
      rw [recalculateOffsets, List.map_cons, ih,
        List.length_cons, List.range_succ_eq_map, List.map_cons, List.map_map,
        Scan.mark_eq, Scan.next_squashedCount]
      refine congrArg₂ List.cons ?_ ?_
      · rw [List.take_succ_cons, List.take_zero, squashes_cons, none]
        simp [CurrentUop.counted]
      · refine List.map_congr_left fun i _ => ?_
        rw [Function.comp_apply, Nat.succ_eq_add_one, List.take_succ_cons,
          squashes_cons]
        omega

/-- The squashed counts that the second loop reads. -/
def counts (uops : List (CurrentUop lastReg)) : List Nat :=
  (recalculateOffsets {} uops).map (·.squashedCount)

/-- The count at a micro-operation that is not squashed. -/
theorem counts_getD {before after : List (CurrentUop lastReg)}
    {uop : CurrentUop lastReg} (surviving : uop.squashed = false) :
    (counts (before ++ uop :: after)).getD before.length 0 =
      squashes before := by
  have none : squashes ([] : List (CurrentUop lastReg)) = 0 := rfl
  have inside : before.length <
      (List.range (before ++ uop :: after).length).length := by
    simp
  rw [counts, recalculateOffsets_counts, List.getD_eq_getElem?_getD,
    List.getElem?_map, List.getElem?_eq_getElem inside, List.getElem_range,
    Option.map_some, Option.getD_some, List.take_append,
    List.take_of_length_le (Nat.le_succ _), Nat.add_sub_cancel_left,
    List.take_succ_cons, List.take_zero, squashes_append, squashes_cons,
    surviving, none]
  simp

/-- The second loop over one stage, whose producers lie directly before it. -/
theorem Stage.settles {uopType : UopType} {dependencies : Nat}
    {uops : List (CurrentUop lastReg)}
    (stage : Stage uopType dependencies uops)
    (before producers after : List (CurrentUop lastReg))
    (depends : dependencies = producers.length)
    (first : ∀ uop ∈ producers.head?, uop.squashed = false) (scan : Scan)
    (unseen : scan.uopType ≠ uopType) :
    recalculateDependencies (counts (before ++ producers ++ uops ++ after))
        (before ++ producers).length (recalculateOffsets scan uops) =
      .ok (settled scan (survivors producers) uops) := by
  cases uops with
  | nil => rfl
  | cons head rest =>
      have here : (counts (before ++ producers ++ head :: rest ++ after)).getD
          (before ++ producers).length 0 = squashes (before ++ producers) := by
        rw [List.append_assoc (before ++ producers), List.cons_append]
        exact counts_getD (stage.first head rfl)
      have there : survivors producers = dependencies -
          ((counts (before ++ producers ++ head :: rest ++ after)).getD
            (before ++ producers).length 0 -
          (counts (before ++ producers ++ head :: rest ++ after)).getD
            ((before ++ producers).length - dependencies) 0) := by
        have total := survivors_add_squashes producers
        rw [here]
        cases producers with
        | nil =>
            simp only [List.length_nil] at depends
            rw [depends, Nat.zero_sub]
            rfl
        | cons producer others =>
            have start : (before ++ producer :: others).length - dependencies =
                before.length := by
              rw [depends, List.length_append, Nat.add_sub_cancel]
            have alive := first producer rfl
            rw [start, List.append_assoc, List.append_assoc, List.cons_append,
              counts_getD alive, squashes_append]
            omega
      rw [recalculateOffsets_typed stage.uopType, Scan.offset_of_ne unseen]
      have room : dependencies ≤ (before ++ producers).length := by
        rw [depends, List.length_append]
        exact Nat.le_add_left _ _
      refine (recalculateDependencies_stage room 0 ?_ ?_).trans ?_
      · intro i uop found
        rw [List.getElem?_mapIdx, Option.map_eq_some_iff] at found
        obtain ⟨old, found, rfl⟩ := found
        have static : old.staticOffset = i := stage.offset found
        exact static.trans (Nat.zero_add i).symm
      · intro uop member
        obtain ⟨i, bound, rfl⟩ := List.mem_mapIdx.mp member
        have own : (head :: rest)[i].intraInstructionDependencies =
            dependencies :=
          stage.dependencies _ (List.getElem_mem bound)
        exact own
      · rw [← there]
        simp only [settled, Nat.zero_add]

/-! ## The dependencies of an instruction -/

namespace Instruction

variable (instruction : Instruction lastReg)

/-- The producers of the stores. -/
def storeProducers : List (CurrentUop lastReg) :=
  if instruction.executes = [] then instruction.loads
  else instruction.executes

/-- The scans with which the stages begin. -/
def executeScan : Scan :=
  Scan.all {} instruction.loads

def storeScan : Scan :=
  Scan.all {} (instruction.loads ++ instruction.executes)

/-- The instruction after `doSquashing`. -/
def settled : List (CurrentUop lastReg) :=
  Stage.settled {} 0 instruction.loads ++
    Stage.settled instruction.executeScan (survivors instruction.loads)
      instruction.executes ++
    Stage.settled instruction.storeScan (survivors instruction.storeProducers)
      instruction.stores

theorem executeScan_unseen :
    instruction.executeScan.uopType ≠ .execute := by
  rcases Scan.all_uopType {} instruction.loads with same | ⟨uop, member, same⟩
  · rw [executeScan, same]
    decide
  · rw [executeScan, same, instruction.load.uopType uop member]
    decide

theorem storeScan_unseen : instruction.storeScan.uopType ≠ .store := by
  rcases Scan.all_uopType {} (instruction.loads ++ instruction.executes) with
    same | ⟨uop, member, same⟩
  · rw [storeScan, same]
    decide
  · rw [storeScan, same]
    rcases List.mem_append.mp member with load | execute
    · rw [instruction.load.uopType uop load]
      decide
    · rw [instruction.execute.uopType uop execute]
      decide

theorem doSquashing_eq :
    doSquashing instruction.uops = .ok instruction.settled := by
  have split : recalculateOffsets {} instruction.uops =
      recalculateOffsets {} instruction.loads ++
        recalculateOffsets instruction.executeScan instruction.executes ++
        recalculateOffsets instruction.storeScan instruction.stores := by
    rw [uops, recalculateOffsets_append, recalculateOffsets_append]
    rfl
  have length : ∀ (scan : Scan) (uops : List (CurrentUop lastReg)),
      (recalculateOffsets scan uops).length = uops.length := by
    intro scan uops
    have counted := congrArg List.length (recalculateOffsets_counts scan uops)
    simpa using counted
  have loads : recalculateDependencies (counts instruction.uops) 0
      (recalculateOffsets {} instruction.loads) =
        .ok (Stage.settled {} 0 instruction.loads) := by
    have settles := instruction.load.settles [] []
      (instruction.executes ++ instruction.stores) rfl
      (fun _ member => by cases member) {} (by decide)
    rwa [List.nil_append, List.nil_append, ← List.append_assoc] at settles
  have executes : recalculateDependencies (counts instruction.uops)
      (0 + (recalculateOffsets {} instruction.loads).length)
      (recalculateOffsets instruction.executeScan instruction.executes) =
        .ok (Stage.settled instruction.executeScan
          (survivors instruction.loads) instruction.executes) := by
    have settles := instruction.execute.settles [] instruction.loads
      instruction.stores rfl instruction.load.first instruction.executeScan
      instruction.executeScan_unseen
    rw [Nat.zero_add, length]
    exact settles
  have stores : recalculateDependencies (counts instruction.uops)
      (0 + (recalculateOffsets {} instruction.loads ++
        recalculateOffsets instruction.executeScan
          instruction.executes).length)
      (recalculateOffsets instruction.storeScan instruction.stores) =
        .ok (Stage.settled instruction.storeScan
          (survivors instruction.storeProducers) instruction.stores) := by
    rw [Nat.zero_add, List.length_append, length, length,
      ← List.length_append]
    by_cases alone : instruction.executes = []
    · have depends := instruction.store
      rw [if_pos alone] at depends
      have settles := depends.settles [] instruction.loads [] rfl
        instruction.load.first instruction.storeScan
        instruction.storeScan_unseen
      rw [storeProducers, if_pos alone, uops, alone]
      simpa using settles
    · have depends := instruction.store
      rw [if_neg alone] at depends
      have settles := depends.settles instruction.loads instruction.executes
        [] rfl instruction.execute.first instruction.storeScan
        instruction.storeScan_unseen
      rw [storeProducers, if_neg alone, uops]
      simpa using settles
  rw [doSquashing, split]
  have same : (recalculateOffsets {} instruction.loads ++
      recalculateOffsets instruction.executeScan instruction.executes ++
      recalculateOffsets instruction.storeScan instruction.stores).map
        (·.squashedCount) = counts instruction.uops := by
    rw [← split, counts]
  rw [same]
  exact recalculateDependencies_append
    (recalculateDependencies_append loads executes) stores

theorem settled_same :
    instruction.settled.map (fun uop => (uop.microOp, uop.squashed)) =
      instruction.uops.map fun uop => (uop.microOp, uop.squashed) := by
  simp only [settled, uops, List.map_append, Stage.settled_same]

/-- The numbers of the surviving producers, from the three stages. -/
theorem survivingProducers_numbers (start : Nat)
    (uop : CurrentUop lastReg) :
    (instruction.survivingProducers (numberUops start instruction.settled)
        uop).map (·.sequenceNumber) =
      (if instruction.producers uop.microOp.uopType = some .load then
          List.range' start (survivors instruction.loads) else []) ++
      (if instruction.producers uop.microOp.uopType = some .execute then
          List.range' (start + survivors instruction.loads)
            (survivors instruction.executes) else []) ++
      (if instruction.producers uop.microOp.uopType = some .store then
          List.range' (start + (survivors instruction.loads +
            survivors instruction.executes))
            (survivors instruction.stores) else []) := by
  rw [survivingProducers, settled, numberUops_append, numberUops_append,
    survivors_append, Stage.survivors_settled, Stage.survivors_settled,
    List.filter_append, List.filter_append, List.map_append, List.map_append,
    instruction.load.filter_numbered, instruction.execute.filter_numbered,
    instruction.store.filter_numbered]

/-- What `getDependency` gives for the range. -/
theorem range_getDependency {first intra : Nat} {uop : CurrentUop lastReg}
    (numbered : Stage.Numbered first intra uop) (enough : intra ≤ first) :
    (List.range uop.intraInstructionDependencies).map uop.getDependency =
      (List.range' (first - intra) intra).map some := by
  have number := numbered.sequenceNumber
  have depends := numbered.dependencies
  have base : uop.firstIntra = first - intra := by
    rw [DynamicMicroOp.firstIntra_of_inRange (by omega)]
    omega
  rw [List.range'_eq_map_range, List.map_map, depends]
  refine List.map_congr_left fun i member => ?_
  rw [DynamicMicroOp.getDependency, depends,
    if_pos (List.mem_range.mp member), base]
  rfl

/-- After squashing, and when only the surviving micro-operations are
numbered, the range of each of them is the surviving part of what it depended
on within the instruction. -/
theorem squashing_keeps_dependencies (start : Nat) :
    ∃ after, doSquashing instruction.uops = .ok after ∧
      after.map (fun uop => (uop.microOp, uop.squashed)) =
        instruction.uops.map (fun uop => (uop.microOp, uop.squashed)) ∧
      ∀ uop ∈ numberUops start after, uop.squashed = false →
        (List.range uop.intraInstructionDependencies).map uop.getDependency =
          (instruction.survivingProducers (numberUops start after) uop).map
            fun producer => some producer.sequenceNumber := by
  refine ⟨instruction.settled, instruction.doSquashing_eq,
    instruction.settled_same, ?_⟩
  intro uop member surviving
  have numbers := instruction.survivingProducers_numbers start uop
  have mapped : (instruction.survivingProducers
      (numberUops start instruction.settled) uop).map
        (fun producer => some producer.sequenceNumber) =
      ((instruction.survivingProducers (numberUops start instruction.settled)
        uop).map (·.sequenceNumber)).map some := by
    rw [List.map_map]
    rfl
  rw [mapped, numbers]
  rw [settled, numberUops_append, numberUops_append] at member
  rcases List.mem_append.mp member with inside | store
  · rcases List.mem_append.mp inside with load | execute
    · have typed := instruction.load.numbered_uopType _ _ _ load
      rw [range_getDependency (Stage.numbered _ _ _ load surviving)
        (Nat.zero_le _), typed]
      rfl
    · have typed := instruction.execute.numbered_uopType _ _ _ execute
      rw [Stage.survivors_settled] at execute
      rw [range_getDependency (Stage.numbered _ _ _ execute surviving)
        (Nat.le_add_left _ _), typed, Nat.add_sub_cancel]
      simp [producers]
  · have typed := instruction.store.numbered_uopType _ _ _ store
    rw [survivors_append, Stage.survivors_settled,
      Stage.survivors_settled] at store
    have numbered := Stage.numbered _ _ _ store surviving
    by_cases alone : instruction.executes = []
    · rw [storeProducers, if_pos alone, alone] at numbered
      rw [range_getDependency numbered (by omega), typed]
      simp [producers, alone, survivors]
    · rw [storeProducers, if_neg alone] at numbered
      rw [range_getDependency numbered (by omega), typed, ← Nat.add_assoc,
        Nat.add_sub_cancel]
      simp [producers, alone]

end Instruction

/-! ## Accesses to one cache line -/

/-- `info.addr & ~63`. -/
def cacheLine (addr : Nat) : Nat :=
  addr / 64 * 64

/-- The memory operands of one direction in `handleInstruction`, with the
cache lines that came before. -/
def squashRepeated :
    List Nat → List Nat → List (CurrentUop lastReg) → List (CurrentUop lastReg)
  | lines, addr :: addrs, uop :: uops =>
      { uop with
        squashed := uop.squashed || decide (cacheLine addr ∈ lines) } ::
        squashRepeated (lines ++ [cacheLine addr]) addrs uops
  | _, _, uops => uops

/-- All of a micro-operation but whether it is squashed. -/
def CurrentUop.unmarked (uop : CurrentUop lastReg) : CurrentUop lastReg :=
  { uop with squashed := false }

theorem squashRepeated_unmarked (lines addrs : List Nat)
    (uops : List (CurrentUop lastReg)) :
    (squashRepeated lines addrs uops).map CurrentUop.unmarked =
      uops.map CurrentUop.unmarked := by
  induction uops generalizing lines addrs with
  | nil => cases addrs <;> rfl
  | cons uop rest ih =>
      cases addrs with
      | nil => rfl
      | cons addr addrs =>
          exact congrArg (List.cons _) (ih _ addrs)

/-- The first access of an instruction never repeats a cache line. -/
theorem Stage.squashRepeated {uopType : UopType} {dependencies : Nat}
    {uops : List (CurrentUop lastReg)}
    (stage : Stage uopType dependencies uops) (addrs : List Nat) :
    Stage uopType dependencies (Rob.squashRepeated [] addrs uops) := by
  have same := squashRepeated_unmarked [] addrs uops
  have source : ∀ uop ∈ Rob.squashRepeated [] addrs uops,
      ∃ old ∈ uops, old.unmarked = uop.unmarked := by
    intro uop member
    have mapped := List.mem_map_of_mem (f := CurrentUop.unmarked) member
    rw [same] at mapped
    exact List.mem_map.mp mapped
  constructor
  · intro uop member
    obtain ⟨old, among, equal⟩ := source uop member
    have type : old.microOp = uop.microOp := congrArg (·.microOp) equal
    rw [← type]
    exact stage.uopType old among
  · intro uop member
    obtain ⟨old, among, equal⟩ := source uop member
    have depends : old.intraInstructionDependencies =
        uop.intraInstructionDependencies :=
      congrArg (·.intraInstructionDependencies) equal
    rw [← depends]
    exact stage.dependencies old among
  · intro i uop found
    have mapped := congrArg (·[i]?) same
    simp only [List.getElem?_map, found, Option.map_some] at mapped
    obtain ⟨old, among, equal⟩ := Option.map_eq_some_iff.mp mapped.symm
    have static : old.staticOffset = uop.staticOffset :=
      congrArg (·.staticOffset) equal
    rw [← static]
    exact stage.offset among
  · intro uop member
    cases uops with
    | nil => cases addrs <;> cases member
    | cons head rest =>
        cases addrs with
        | nil => exact stage.first uop member
        | cons addr addrs =>
            cases member
            simp [stage.first head rfl]

namespace Instruction

variable (instruction : Instruction lastReg)

/-- The instruction after its memory operands were handled. -/
def handled (reads writes : List Nat) : Instruction lastReg where
  loads := squashRepeated [] reads instruction.loads
  executes := instruction.executes
  stores := squashRepeated [] writes instruction.stores
  load := instruction.load.squashRepeated reads
  execute := by
    have length := congrArg List.length
      (squashRepeated_unmarked [] reads instruction.loads)
    rw [List.length_map, List.length_map] at length
    rw [length]
    exact instruction.execute
  store := by
    have length := congrArg List.length
      (squashRepeated_unmarked [] reads instruction.loads)
    rw [List.length_map, List.length_map] at length
    rw [length]
    exact instruction.store.squashRepeated writes
  executed := instruction.executed

end Instruction

/-! ## An instruction -/

/-- The micro-operations of one type before their operands are handled. -/
def uopsOf (uopType : UopType) (dependencies count : Nat) :
    List (CurrentUop 1) :=
  (List.range count).map fun offset =>
    { microOp := { uopType := uopType }
      sequenceNumber := 0
      intraInstructionDependencies := dependencies
      staticOffset := offset }

theorem squashed_uopsOf (uopType : UopType) (dependencies count : Nat) :
    ∀ uop ∈ uopsOf uopType dependencies count, uop.squashed = false := by
  simp [uopsOf]

theorem stage_uopsOf (uopType : UopType) (dependencies count : Nat) :
    Stage uopType dependencies (uopsOf uopType dependencies count) := by
  constructor
  · simp [uopsOf]
  · simp [uopsOf]
  · intro i uop found
    rw [uopsOf, List.getElem?_map] at found
    obtain ⟨offset, place, rfl⟩ := Option.map_eq_some_iff.mp found
    obtain ⟨inside, rfl⟩ := List.getElem?_eq_some_iff.mp place
    exact List.getElem_range inside
  · intro uop member
    exact squashed_uopsOf _ _ _ uop (List.mem_of_mem_head? member)

def loadsAndStores : Instruction 1 where
  loads := uopsOf .load 0 3
  executes := uopsOf .execute 3 1
  stores := uopsOf .store 1 2
  load := stage_uopsOf .load 0 3
  execute := stage_uopsOf .execute 3 1
  store := stage_uopsOf .store 1 2
  executed := squashed_uopsOf .execute 3 1

/-- The second load and the second store touch the lines of the first ones. -/
theorem squashing_keeps_dependencies_loadsAndStores :
    let instruction := loadsAndStores.handled [0, 8, 64] [128, 136]
    instruction.uops.map (·.squashed) =
        [false, true, false, false, false, true] ∧
      ∃ after, doSquashing instruction.uops = .ok after ∧
        after.map (·.intraInstructionDependencies) = [0, 0, 0, 2, 1, 1] ∧
        ∀ uop ∈ numberUops 10 after, uop.squashed = false →
          (List.range uop.intraInstructionDependencies).map
              uop.getDependency =
            (instruction.survivingProducers (numberUops 10 after) uop).map
              fun producer => some producer.sequenceNumber := by
  intro instruction
  obtain ⟨after, squashed, -, ranges⟩ :=
    instruction.squashing_keeps_dependencies 10
  have counted : (doSquashing instruction.uops).map
      (·.map (·.intraInstructionDependencies)) = .ok [0, 0, 0, 2, 1, 1] := by
    decide
  rw [squashed] at counted
  exact ⟨by decide, after, squashed, Except.ok.inj counted, ranges⟩

end ChipletSniper.Rob
