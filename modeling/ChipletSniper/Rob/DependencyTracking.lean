import ChipletSniper.Rob.Dependencies

/-!
# The dependencies that are found

The tables agree with the stream as far as the window goes, so a
micro-operation gets the dependencies of the definition, unless the last
memory barrier is the oldest valid micro-operation.
-/

namespace ChipletSniper.Rob

open Function

variable {lastReg : Nat}

/-! ## Adding many dependencies -/

namespace DynamicMicroOp

/-- The list with the numbers that it does not have yet. -/
def insertAll (dependencies numbers : List Nat) : List Nat :=
  numbers.foldl (fun dependencies number =>
    if number ∈ dependencies then dependencies else dependencies ++ [number])
    dependencies

theorem insertAll_cons (dependencies : List Nat) (number : Nat)
    (numbers : List Nat) :
    insertAll dependencies (number :: numbers) =
      insertAll (if number ∈ dependencies then dependencies
        else dependencies ++ [number]) numbers := rfl

theorem length_le_insertAll (dependencies numbers : List Nat) :
    dependencies.length ≤ (insertAll dependencies numbers).length := by
  induction numbers generalizing dependencies with
  | nil => exact Nat.le_refl _
  | cons number numbers ih =>
      rw [insertAll_cons]
      apply Nat.le_trans _ (ih _)
      split <;> simp

theorem mem_insertAll {dependencies numbers : List Nat} {number : Nat} :
    number ∈ insertAll dependencies numbers ↔
      number ∈ dependencies ∨ number ∈ numbers := by
  induction numbers generalizing dependencies with
  | nil => simp [insertAll]
  | cons head numbers ih =>
      rw [insertAll_cons, ih, List.mem_cons]
      split
      next known =>
        constructor
        · exact fun member => member.imp id Or.inr
        · rintro (member | rfl | member)
          · exact Or.inl member
          · exact Or.inl known
          · exact Or.inr member
      next => simp [or_assoc]

theorem nodup_insertAll {dependencies : List Nat}
    (nodup : dependencies.Nodup) (numbers : List Nat) :
    (insertAll dependencies numbers).Nodup := by
  induction numbers generalizing dependencies with
  | nil => exact nodup
  | cons number numbers ih =>
      rw [insertAll_cons]
      apply ih
      split
      next => exact nodup
      next unknown =>
        apply List.Nodup.append nodup (List.nodup_singleton number)
        simpa using unknown

theorem map_pair {Table Result : Type} (table : Table)
    (result : Except Failure Result) :
    (result >>= fun value => pure (table, value)) =
      result.map fun value => (table, value) := by
  cases result <;> rfl

/-- `addDependency` for one number after the other. -/
def addDependencies (uop : DynamicMicroOp lastReg) (numbers : List Nat) :
    Except Failure (DynamicMicroOp lastReg) :=
  numbers.foldlM (fun uop number => uop.addDependency number) uop

theorem addDependencies_append (uop : DynamicMicroOp lastReg)
    (first second : List Nat) :
    uop.addDependencies (first ++ second) =
      uop.addDependencies first >>= fun uop => uop.addDependencies second := by
  rw [addDependencies, List.foldlM_append]
  rfl

theorem addProducer_eq (uop : DynamicMicroOp lastReg) (producer : Option Nat) :
    uop.addProducer producer = uop.addDependencies producer.toList := by
  cases producer with
  | none => rfl
  | some number =>
      change _ = uop.addDependency number >>= pure
      rw [bind_pure]
      rfl

theorem addDependencies_eq (uop : DynamicMicroOp lastReg) (numbers : List Nat)
    (fits : uop.dependencies.length ≤ maximumNumberOfDependencies) :
    uop.addDependencies numbers =
      if (insertAll uop.dependencies numbers).length ≤
          maximumNumberOfDependencies then
        .ok { uop with dependencies := insertAll uop.dependencies numbers }
      else
        .error .tooManyDependencies := by
  induction numbers generalizing uop with
  | nil =>
      rw [if_pos (by exact fits)]
      rfl
  | cons number numbers ih =>
      rw [insertAll_cons]
      change uop.addDependency number >>= (fun uop =>
        uop.addDependencies numbers) = _
      rw [addDependency]
      by_cases known : number ∈ uop.dependencies
      · rw [if_pos known, if_pos known]
        exact ih uop fits
      · rw [if_neg known, if_neg known]
        by_cases room : uop.dependencies.length < maximumNumberOfDependencies
        · rw [if_pos room]
          exact ih
            { uop with dependencies := uop.dependencies ++ [number] }
            (by simpa using Nat.succ_le_of_lt room)
        · rw [if_neg room, if_neg]
          · rfl
          · have grows := length_le_insertAll (uop.dependencies ++ [number])
              numbers
            rw [List.length_append, List.length_singleton] at grows
            omega

end DynamicMicroOp

/-! ## The definition -/

namespace Dependencies

/-- The number of the latest micro-operation of its kind; the past is listed
from its end. -/
def latest (past : List (DynamicMicroOp lastReg))
    (kind : DynamicMicroOp lastReg → Bool) : Option Nat :=
  (past.find? kind).map DynamicMicroOp.sequenceNumber

def writes (register : Fin lastReg) (uop : DynamicMicroOp lastReg) : Bool :=
  uop.microOp.destinationRegisters.contains register

def storesTo (address : Nat) (uop : DynamicMicroOp lastReg) : Bool :=
  uop.microOp.isStore && uop.address = address

/-- An actual barrier, not a memory access that acts as one. -/
def isFence (uop : DynamicMicroOp lastReg) : Bool :=
  !uop.microOp.isLoad && !uop.microOp.isStore && uop.microOp.isMemBarrier

/-- The writers of the registers that are read, and for a load the store to
its address. -/
def dataProducers (past : List (DynamicMicroOp lastReg))
    (uop : DynamicMicroOp lastReg) : List Nat :=
  uop.microOp.sourceRegisters.filterMap (fun register =>
    latest past (writes register)) ++
  if uop.microOp.isLoad then (latest past (storesTo uop.address)).toList else []

def orderedByBarriers (uop : DynamicMicroOp lastReg) : Bool :=
  uop.microOp.isLoad || uop.microOp.isStore || uop.microOp.isMemBarrier

def barrier (past : List (DynamicMicroOp lastReg))
    (uop : DynamicMicroOp lastReg) : Option Nat :=
  if orderedByBarriers uop then latest past isFence else none

/-- The producers whose number is valid. -/
def expected (past : List (DynamicMicroOp lastReg)) (entry : Entry lastReg) :
    List Nat :=
  (dataProducers past entry.uop ++ (barrier past entry.uop).toList).filter
    (entry.lowest ≤ ·)

/-- Every micro-operation of the stream has its dependencies, once each. -/
def Exact : List (DynamicMicroOp lastReg) → List (Entry lastReg) →
    List (DynamicMicroOp lastReg) → Prop
  | _, [], [] => True
  | past, entry :: rest, uop :: uops =>
      uop.dependencies.Perm (expected past entry).dedup ∧
        Exact (entry.uop :: past) rest uops
  | _, _, _ => False

/-- There is room for the dependencies, and the last barrier is not the oldest
valid micro-operation, unless that is a producer of data as well. -/
structure Recognised (past : List (DynamicMicroOp lastReg))
    (entry : Entry lastReg) : Prop where
  fits : (expected past entry).dedup.length ≤ maximumNumberOfDependencies
  barrier : barrier past entry.uop = some entry.lowest →
    entry.lowest ∈ dataProducers past entry.uop

def AllRecognised : List (DynamicMicroOp lastReg) → List (Entry lastReg) → Prop
  | _, [] => True
  | past, entry :: rest =>
      Recognised past entry ∧ AllRecognised (entry.uop :: past) rest

/-- A stream whose window slides forward and never has more micro-operations
than the queue of producers. -/
structure Admissible (stream : List (Entry lastReg)) : Prop where
  increasing : stream.Pairwise fun first second =>
    first.uop.sequenceNumber < second.uop.sequenceNumber
  sliding : stream.Pairwise fun first second => first.lowest ≤ second.lowest
  valid : ∀ entry ∈ stream, entry.lowest ≤ entry.uop.sequenceNumber
  window : ∀ entry ∈ stream,
    entry.uop.sequenceNumber < entry.lowest + memoryProducers
  fresh : ∀ entry ∈ stream, entry.uop.dependencies = []

/-! ## The tables -/

/-- The stores in the window, the oldest first. -/
def stores (past : List (DynamicMicroOp lastReg)) (lowest : Nat) :
    List Producer :=
  ((past.filter fun uop => uop.microOp.isStore &&
    decide (lowest ≤ uop.sequenceNumber)).map fun uop =>
      ⟨uop.sequenceNumber, uop.address⟩).reverse

/-- The tables say of the window what the past says. -/
structure Agrees (past : List (DynamicMicroOp lastReg)) (lowest : Nat)
    (tables : Dependencies lastReg) : Prop where
  registers : ∀ register number, lowest ≤ number →
    (tables.registers.producers register = some number ↔
      latest past (writes register) = some number)
  producers : tables.memory.producers = stores past lowest
  membar : tables.memory.membar = latest past isFence

theorem agrees_start : Agrees [] 0 (start : Dependencies lastReg) where
  registers := by simp [start, RegisterDependencies.start, latest]
  producers := rfl
  membar := rfl

/-- The numbers go down when the past is listed from its end. -/
abbrev Descending (past : List (DynamicMicroOp lastReg)) : Prop :=
  past.Pairwise fun later earlier =>
    earlier.sequenceNumber < later.sequenceNumber

theorem latest_cons (uop : DynamicMicroOp lastReg)
    (past : List (DynamicMicroOp lastReg))
    (kind : DynamicMicroOp lastReg → Bool) :
    latest (uop :: past) kind =
      if kind uop then some uop.sequenceNumber else latest past kind := by
  rw [latest, List.find?_cons]
  cases kind uop <;> rfl

/-- Cutting off the old ones from a list that is in order. -/
theorem find?_valid {past : List (DynamicMicroOp lastReg)}
    (descending : Descending past) (lowest : Nat)
    (kind : DynamicMicroOp lastReg → Bool) :
    past.find? (fun uop => decide (lowest ≤ uop.sequenceNumber) && kind uop) =
      (past.find? kind).filter (lowest ≤ ·.sequenceNumber) := by
  induction past with
  | nil => rfl
  | cons uop past ih =>
      have ⟨newest, others⟩ := List.pairwise_cons.mp descending
      rw [List.find?_cons, List.find?_cons, ih others]
      cases isKind : kind uop with
      | false => simp
      | true =>
          by_cases valid : lowest ≤ uop.sequenceNumber
          · simp [valid, Option.filter_some]
          · have older : past.find? (fun other =>
                decide (lowest ≤ other.sequenceNumber) && kind other) = none := by
              rw [List.find?_eq_none]
              intro other member
              have less := newest other member
              simp
              omega
            rw [← ih others, older]
            simp [valid, Option.filter_some]

theorem dropWhile_eq_filter {producers : List Producer}
    (ascending : producers.Pairwise fun first second =>
      first.seqnr < second.seqnr) (lowest : Nat) :
    producers.dropWhile (fun producer => producer.seqnr < lowest) =
      producers.filter (lowest ≤ ·.seqnr) := by
  induction producers with
  | nil => rfl
  | cons producer producers ih =>
      rw [List.pairwise_cons] at ascending
      by_cases valid : lowest ≤ producer.seqnr
      · rw [List.dropWhile_cons_of_neg (by simpa using valid)]
        apply Eq.symm
        rw [List.filter_eq_self]
        intro other member
        cases List.mem_cons.mp member with
        | inl same => simpa [same] using valid
        | inr later =>
            have less := ascending.1 other later
            simp
            omega
      · rw [List.dropWhile_cons_of_pos (by simpa using valid),
          ih ascending.2, List.filter_cons_of_neg]
        simpa using valid

theorem ascending_stores {past : List (DynamicMicroOp lastReg)}
    (descending : Descending past) (lowest : Nat) :
    (stores past lowest).Pairwise fun first second =>
      first.seqnr < second.seqnr := by
  rw [stores, List.pairwise_reverse, List.pairwise_map]
  exact descending.filter _

theorem clean_stores {past : List (DynamicMicroOp lastReg)}
    (descending : Descending past) {before lowest : Nat}
    (sliding : before ≤ lowest) :
    (stores past before).dropWhile (fun producer => producer.seqnr < lowest) =
      stores past lowest := by
  rw [dropWhile_eq_filter (ascending_stores descending before), stores, stores,
    List.filter_reverse, List.filter_map, List.filter_filter]
  congr 2
  apply List.filter_congr
  intro uop _
  cases uop.microOp.isStore <;> simp
  omega

theorem find_stores {past : List (DynamicMicroOp lastReg)}
    (descending : Descending past) (lowest address : Nat)
    (membar : Option Nat) :
    MemoryDependencies.find ⟨stores past lowest, membar⟩ address =
      (latest past (storesTo address)).filter (lowest ≤ ·) := by
  have found := find?_valid descending lowest (storesTo address)
  rw [MemoryDependencies.find, stores, List.reverse_reverse, List.find?_map,
    List.find?_filter, Option.map_map, latest, Option.filter_map]
  refine congrArg₂ _ rfl (Eq.trans ?_ found)
  congr 1
  funext uop
  simp [storesTo, and_left_comm, and_assoc]

/-! ## One micro-operation -/

open RegisterDependencies (addSources) in
/-- The sources are looked up in the table; what the loop clears is no longer
valid. -/
theorem addSources_eq (lowest : Nat) (sources : List (Fin lastReg))
    (registers : RegisterDependencies lastReg) (uop : DynamicMicroOp lastReg) :
    ∃ next : RegisterDependencies lastReg,
      addSources lowest sources registers uop =
        (uop.addDependencies (sources.filterMap fun source =>
          (registers.producers source).filter (lowest ≤ ·))).map
            (fun uop => (next, uop)) ∧
      ∀ register number, lowest ≤ number →
        (next.producers register = some number ↔
          registers.producers register = some number) := by
  induction sources generalizing registers uop with
  | nil => exact ⟨registers, rfl, fun _ _ _ => Iff.rfl⟩
  | cons source rest ih =>
      rw [addSources]
      cases found : registers.producers source with
      | none =>
          obtain ⟨next, run, same⟩ := ih registers uop
          refine ⟨next, ?_, same⟩
          rw [List.filterMap_cons_none (by simp [found])]
          exact run
      | some producer =>
          by_cases valid : lowest ≤ producer
          · rw [List.filterMap_cons_some (b := producer)
              (by simp [found, valid, Option.filter_some])]
            dsimp only
            rw [if_pos valid]
            change ∃ next, (uop.addDependency producer >>= _) =
              (uop.addDependency producer >>= fun uop =>
                uop.addDependencies _).map _ ∧ _
            cases uop.addDependency producer with
            | error failure => exact ⟨registers, rfl, fun _ _ _ => Iff.rfl⟩
            | ok uop => exact ih registers uop
          · have outdated : ∀ register,
                (update registers.producers source none register).filter
                    (lowest ≤ ·) =
                  (registers.producers register).filter (lowest ≤ ·) := by
              intro register
              by_cases same : register = source
              · rw [same, update_self, found]
                simp [Option.filter_some, valid]
              · rw [update_of_ne same]
            obtain ⟨next, run, kept⟩ := ih
              ⟨update registers.producers source none⟩ uop
            refine ⟨next, ?_, fun register number isValid => ?_⟩
            · rw [List.filterMap_cons_none
                (by simp [found, valid, Option.filter_some])]
              dsimp only
              rw [if_neg valid, run]
              simp only [outdated]
            · rw [kept register number isValid]
              change update registers.producers source none register =
                some number ↔ _
              by_cases same : register = source
              · rw [same, update_self, found]
                simp
                omega
              · rw [update_of_ne same]

theorem updateProducers_apply (sequenceNumber : Nat)
    (destinations : List (Fin lastReg))
    (registers : RegisterDependencies lastReg) (register : Fin lastReg) :
    (registers.updateProducers sequenceNumber destinations).producers register =
      if register ∈ destinations then some sequenceNumber
      else registers.producers register := by
  induction destinations generalizing registers with
  | nil => rfl
  | cons destination rest ih =>
      change (RegisterDependencies.updateProducers sequenceNumber
        ⟨update registers.producers destination _⟩ rest).producers
          register = _
      rw [ih]
      by_cases later : register ∈ rest
      · simp [later]
      · by_cases same : register = destination
        · simp [same]
        · simp [later, same]

theorem stores_cons (uop : DynamicMicroOp lastReg)
    (past : List (DynamicMicroOp lastReg)) {lowest : Nat}
    (valid : lowest ≤ uop.sequenceNumber) :
    stores (uop :: past) lowest =
      if uop.microOp.isStore then
        stores past lowest ++ [⟨uop.sequenceNumber, uop.address⟩]
      else stores past lowest := by
  cases isStore : uop.microOp.isStore <;> simp [stores, isStore, valid]

theorem length_stores_le {past : List (DynamicMicroOp lastReg)}
    {lowest bound : Nat} (descending : Descending past)
    (below : ∀ uop ∈ past, uop.sequenceNumber < bound) :
    (stores past lowest).length ≤ bound - lowest := by
  have nodup : ((stores past lowest).map Producer.seqnr).Nodup := by
    apply List.Pairwise.map _ _ (ascending_stores descending lowest)
    exact fun _ _ less => Nat.ne_of_lt less
  have inWindow : (stores past lowest).map Producer.seqnr ⊆
      List.range' lowest (bound - lowest) := by
    intro number member
    obtain ⟨producer, stored, rfl⟩ := List.mem_map.mp member
    rw [stores, List.mem_reverse, List.mem_map] at stored
    obtain ⟨uop, kept, rfl⟩ := stored
    have ⟨isPast, valid⟩ := List.mem_filter.mp kept
    have less := below uop isPast
    simp only [Bool.and_eq_true, decide_eq_true_eq] at valid
    rw [List.mem_range'_1]
    exact ⟨valid.2, by simp only; omega⟩
  simpa using (List.subperm_of_subset nodup inWindow).length_le

/-- The dependencies that the memory table adds. -/
def memoryProducersOf (past : List (DynamicMicroOp lastReg))
    (uop : DynamicMicroOp lastReg) (lowest : Nat) : List Nat :=
  (if uop.microOp.isLoad then
    ((latest past (storesTo uop.address)).filter (lowest ≤ ·)).toList
  else []) ++
    ((barrier past uop).filter (lowest < ·)).toList

theorem memory_setDependencies_eq {past : List (DynamicMicroOp lastReg)}
    {before lowest : Nat} {memory : MemoryDependencies}
    (uop : DynamicMicroOp lastReg) (descending : Descending past)
    (producers : memory.producers = stores past before)
    (membar : memory.membar = latest past isFence)
    (sliding : before ≤ lowest) (valid : lowest ≤ uop.sequenceNumber)
    (room : uop.microOp.isStore = true →
      (stores past lowest).length < memoryProducers) :
    ∃ next : MemoryDependencies,
      (∀ dependencies,
        memory.setDependencies { uop with dependencies := dependencies } lowest =
          (DynamicMicroOp.addDependencies
            { uop with dependencies := dependencies }
            (memoryProducersOf past uop lowest)).map
              (fun uop => (next, uop))) ∧
      next.producers = stores (uop :: past) lowest ∧
      next.membar = latest (uop :: past) isFence := by
  have cleaned : memory.clean lowest =
      ⟨stores past lowest, latest past isFence⟩ := by
    rw [MemoryDependencies.clean, producers, clean_stores descending sliding,
      membar]
  have found := find_stores descending lowest uop.address (latest past isFence)
  have fence : MemoryDependencies.validMembar
      ⟨stores past lowest, latest past isFence⟩ lowest =
        (latest past isFence).filter (lowest < ·) := rfl
  simp only [MemoryDependencies.setDependencies]
  rw [cleaned, stores_cons uop past valid, latest_cons, memoryProducersOf, barrier]
  cases kind : uop.microOp.uopType with
  | load =>
      refine ⟨⟨stores past lowest, latest past isFence⟩, ?_, ?_, ?_⟩
      · intro dependencies
        simp only [orderedByBarriers, MicroOp.isLoad, kind, decide_true,
          Bool.true_or, if_true]
        rw [found, fence, DynamicMicroOp.addDependencies_append,
          ← DynamicMicroOp.map_pair, bind_assoc]
        simp only [DynamicMicroOp.addProducer_eq]
      · simp [MicroOp.isStore, kind]
      · simp [isFence, MicroOp.isLoad, kind]
  | store =>
      refine ⟨⟨stores past lowest ++ [⟨uop.sequenceNumber, uop.address⟩],
        latest past isFence⟩, ?_, ?_, ?_⟩
      · intro dependencies
        have fits := room (decide_eq_true kind)
        simp only [orderedByBarriers, MicroOp.isLoad, MicroOp.isStore, kind,
          MemoryDependencies.add, if_pos fits, decide_true, Bool.or_true,
          Bool.true_or, if_true, reduceCtorEq, decide_false, Bool.false_eq_true,
          if_false]
        rw [← DynamicMicroOp.map_pair, List.nil_append, ← fence]
        simp only [DynamicMicroOp.addProducer_eq]
        rfl
      · simp [MicroOp.isStore, kind]
      · simp [isFence, MicroOp.isStore, kind]
  | execute | invalid =>
      cases membar : uop.microOp.isMemBarrier with
      | true =>
          refine ⟨⟨stores past lowest, some uop.sequenceNumber⟩, ?_, ?_, ?_⟩
          · intro dependencies
            simp only [orderedByBarriers, MicroOp.isLoad, MicroOp.isStore, kind,
              membar, Bool.or_true, if_true, reduceCtorEq, decide_false,
              Bool.false_eq_true, if_false]
            rw [← DynamicMicroOp.map_pair, List.nil_append, ← fence]
            simp only [DynamicMicroOp.addProducer_eq]
          · simp [MicroOp.isStore, kind]
          · simp [isFence, MicroOp.isLoad, MicroOp.isStore, kind, membar]
      | false =>
          refine ⟨⟨stores past lowest, latest past isFence⟩, ?_, ?_, ?_⟩
          · intro dependencies
            simp only [orderedByBarriers, MicroOp.isLoad, MicroOp.isStore, kind,
              membar, Bool.or_self, reduceCtorEq, decide_false,
              Bool.false_eq_true, if_false]
            rfl
          · simp [MicroOp.isStore, kind]
          · simp [isFence, membar]

/-- What the two tables find. -/
def foundProducers (past : List (DynamicMicroOp lastReg))
    (entry : Entry lastReg) : List Nat :=
  (dataProducers past entry.uop).filter (entry.lowest ≤ ·) ++
    ((barrier past entry.uop).filter (entry.lowest < ·)).toList

theorem toList_filter (number : Option Nat) (valid : Nat → Bool) :
    (number.filter valid).toList = number.toList.filter valid := by
  cases number with
  | none => rfl
  | some number =>
      cases isValid : valid number <;>
        simp [Option.filter_some, isValid]

theorem setDependencies_eq {past : List (DynamicMicroOp lastReg)}
    {before : Nat} {tables : Dependencies lastReg} {entry : Entry lastReg}
    (agrees : Agrees past before tables) (descending : Descending past)
    (sliding : before ≤ entry.lowest)
    (valid : entry.lowest ≤ entry.uop.sequenceNumber)
    (room : entry.uop.microOp.isStore = true →
      (stores past entry.lowest).length < memoryProducers)
    (fresh : entry.uop.dependencies = []) :
    ∃ next : Dependencies lastReg,
      tables.setDependencies entry =
        (entry.uop.addDependencies (foundProducers past entry)).map
          (fun uop => (next, uop)) ∧
      Agrees (entry.uop :: past) entry.lowest next := by
  obtain ⟨registers, first, same⟩ := addSources_eq entry.lowest
    entry.uop.microOp.sourceRegisters tables.registers entry.uop
  obtain ⟨memory, second, producers, membar⟩ := memory_setDependencies_eq
    entry.uop descending agrees.producers agrees.membar sliding valid room
  have table : ∀ register,
      (tables.registers.producers register).filter (entry.lowest ≤ ·) =
        (latest past (writes register)).filter (entry.lowest ≤ ·) := by
    intro register
    ext number
    simp only [Option.filter_eq_some_iff, decide_eq_true_eq]
    constructor
    · rintro ⟨found, isValid⟩
      exact ⟨(agrees.registers register number (by omega)).mp found, isValid⟩
    · rintro ⟨found, isValid⟩
      exact ⟨(agrees.registers register number (by omega)).mpr found, isValid⟩
  simp only [table] at first
  have split : foundProducers past entry =
      (entry.uop.microOp.sourceRegisters.filterMap fun register =>
        (latest past (writes register)).filter (entry.lowest ≤ ·)) ++
      memoryProducersOf past entry.uop entry.lowest := by
    rw [foundProducers, dataProducers, List.filter_append,
      List.filter_filterMap, memoryProducersOf, List.append_assoc]
    congr 2
    cases entry.uop.microOp.isLoad with
    | false => rfl
    | true => exact (toList_filter _ _).symm
  refine ⟨⟨registers.updateProducers entry.uop.sequenceNumber
    entry.uop.microOp.destinationRegisters, memory⟩, ?_, ?_, producers, membar⟩
  · rw [Dependencies.setDependencies, RegisterDependencies.setDependencies,
      first, split, DynamicMicroOp.addDependencies_append,
      DynamicMicroOp.addDependencies_eq _ _ (by rw [fresh]; exact Nat.zero_le _)]
    split
    · change ((tables.memory.setDependencies _ entry.lowest) >>=
        fun result => pure (_, result.2)) =
          (DynamicMicroOp.addDependencies _ _).map _
      rw [second]
      generalize DynamicMicroOp.addDependencies _ _ = result
      cases result <;> rfl
    · rfl
  · intro register number isValid
    rw [updateProducers_apply, latest_cons, writes]
    by_cases written : register ∈ entry.uop.microOp.destinationRegisters
    · simp [written]
    · rw [if_neg written, if_neg (by simpa using written),
        same register number isValid]
      exact agrees.registers register number (by omega)

/-- The tables and the definition differ in one number at most. -/
theorem found_iff_recognised (past : List (DynamicMicroOp lastReg))
    (entry : Entry lastReg) :
    (∀ number, number ∈ foundProducers past entry ↔
      number ∈ expected past entry) ↔
    (barrier past entry.uop = some entry.lowest →
      entry.lowest ∈ dataProducers past entry.uop) := by
  constructor
  · intro same isOldest
    have wanted : entry.lowest ∈ expected past entry := by
      simp [expected, isOldest]
    have found := (same _).mpr wanted
    simpa [foundProducers, isOldest, Option.filter_some] using found
  · intro recognised number
    cases fence : barrier past entry.uop with
    | none => simp [foundProducers, expected, fence]
    | some membar =>
        rw [fence] at recognised
        by_cases isOldest : membar = entry.lowest
        · have data := recognised (by rw [isOldest])
          simp only [foundProducers, expected, fence, isOldest,
            Option.filter_some, decide_eq_true_eq, Nat.lt_irrefl, if_false,
            Option.toList_none, List.append_nil, List.mem_filter,
            List.mem_append, Option.toList_some, List.mem_singleton]
          constructor
          · exact fun member => ⟨Or.inl member.1, member.2⟩
          · rintro ⟨member | rfl, isValid⟩
            · exact ⟨member, isValid⟩
            · exact ⟨data, isValid⟩
        · have members : number ∈ foundProducers past entry ↔
              number ∈ (dataProducers past entry.uop).filter
                  (entry.lowest ≤ ·) ∨
                entry.lowest < membar ∧ membar = number := by
            simp [foundProducers, fence, Option.filter_some]
          have wanted : number ∈ expected past entry ↔
              number ∈ (dataProducers past entry.uop).filter
                  (entry.lowest ≤ ·) ∨
                membar = number ∧ entry.lowest ≤ number := by
            simp [expected, fence, eq_comm]
          rw [members, wanted]
          apply or_congr Iff.rfl
          omega

theorem exact_iff_recognised (past : List (DynamicMicroOp lastReg))
    (entry : Entry lastReg) :
    ((DynamicMicroOp.insertAll [] (foundProducers past entry)).length ≤
        maximumNumberOfDependencies ∧
      (DynamicMicroOp.insertAll [] (foundProducers past entry)).Perm
        (expected past entry).dedup) ↔
    Recognised past entry := by
  have same : (DynamicMicroOp.insertAll [] (foundProducers past entry)).Perm
        (expected past entry).dedup ↔
      (barrier past entry.uop = some entry.lowest →
        entry.lowest ∈ dataProducers past entry.uop) := by
    rw [← found_iff_recognised, List.perm_ext_iff_of_nodup
      (DynamicMicroOp.nodup_insertAll List.nodup_nil _) (List.nodup_dedup _)]
    simp [DynamicMicroOp.mem_insertAll]
  constructor
  · rintro ⟨fits, perm⟩
    exact ⟨perm.length_eq ▸ fits, same.mp perm⟩
  · rintro ⟨fits, isRecognised⟩
    have perm := same.mpr isRecognised
    exact ⟨perm.length_eq.symm ▸ fits, perm⟩

/-- What holds of the past and of the rest of a stream. -/
structure Ahead (past : List (DynamicMicroOp lastReg)) (before : Nat)
    (stream : List (Entry lastReg)) : Prop where
  descending : Descending past
  newest : ∀ entry ∈ stream, ∀ other ∈ past,
    other.sequenceNumber < entry.uop.sequenceNumber
  sliding : ∀ entry ∈ stream, before ≤ entry.lowest

theorem Ahead.next {past : List (DynamicMicroOp lastReg)} {before : Nat}
    {entry : Entry lastReg} {rest : List (Entry lastReg)}
    (ahead : Ahead past before (entry :: rest))
    (admissible : Admissible (entry :: rest)) :
    Ahead (entry.uop :: past) entry.lowest rest where
  descending := List.pairwise_cons.mpr
    ⟨ahead.newest entry List.mem_cons_self, ahead.descending⟩
  newest := by
    intro later isLater other member
    cases List.mem_cons.mp member with
    | inl same =>
        rw [same]
        exact (List.pairwise_cons.mp admissible.increasing).1 later isLater
    | inr isPast =>
        exact ahead.newest later (List.mem_cons_of_mem _ isLater) other isPast
  sliding := (List.pairwise_cons.mp admissible.sliding).1

theorem Admissible.tail {entry : Entry lastReg} {rest : List (Entry lastReg)}
    (admissible : Admissible (entry :: rest)) : Admissible rest where
  increasing := (List.pairwise_cons.mp admissible.increasing).2
  sliding := (List.pairwise_cons.mp admissible.sliding).2
  valid := fun other member =>
    admissible.valid other (List.mem_cons_of_mem _ member)
  window := fun other member =>
    admissible.window other (List.mem_cons_of_mem _ member)
  fresh := fun other member =>
    admissible.fresh other (List.mem_cons_of_mem _ member)

theorem exact_track_iff {past : List (DynamicMicroOp lastReg)} {before : Nat}
    {tables : Dependencies lastReg} {stream : List (Entry lastReg)}
    (agrees : Agrees past before tables) (ahead : Ahead past before stream)
    (admissible : Admissible stream) :
    (∃ uops, tables.track stream = .ok uops ∧ Exact past stream uops) ↔
      AllRecognised past stream := by
  induction stream generalizing past before tables with
  | nil => exact ⟨fun _ => trivial, fun _ => ⟨[], rfl, trivial⟩⟩
  | cons entry rest ih =>
      have here : entry ∈ entry :: rest := List.mem_cons_self
      have room : (stores past entry.lowest).length < memoryProducers := by
        have short : (stores past entry.lowest).length ≤ _ :=
          length_stores_le ahead.descending (ahead.newest entry here)
        have valid := admissible.valid entry here
        have window := admissible.window entry here
        omega
      obtain ⟨next, run, agreesNext⟩ := setDependencies_eq agrees
        ahead.descending (ahead.sliding entry here)
        (admissible.valid entry here) (fun _ => room)
        (admissible.fresh entry here)
      have later := ih agreesNext (ahead.next admissible)
        admissible.tail
      have fresh := admissible.fresh entry here
      rw [DynamicMicroOp.addDependencies_eq _ _
        (by rw [fresh]; exact Nat.zero_le _), fresh] at run
      rw [AllRecognised, ← exact_iff_recognised, ← later, track, run]
      by_cases fits : (DynamicMicroOp.insertAll []
          (foundProducers past entry)).length ≤ maximumNumberOfDependencies
      · rw [if_pos fits]
        constructor
        · rintro ⟨uops, all, exact⟩
          change (next.track rest >>= fun uops => pure (_ :: uops)) = _ at all
          cases tail : next.track rest with
          | error failure =>
              rw [tail] at all
              cases all
          | ok rest =>
              rw [tail] at all
              cases all
              exact ⟨⟨fits, exact.1⟩, rest, rfl, exact.2⟩
        · rintro ⟨⟨-, perm⟩, uops, all, exact⟩
          refine ⟨{ entry.uop with
            dependencies :=
              DynamicMicroOp.insertAll [] (foundProducers past entry) } :: uops,
            ?_, perm, exact⟩
          change (next.track rest >>= fun uops => pure (_ :: uops)) = _
          rw [all]
          rfl
      · rw [if_neg fits]
        constructor
        · rintro ⟨uops, all, -⟩
          cases all
        · rintro ⟨⟨small, -⟩, -⟩
          exact absurd small fits

/-- Every micro-operation of a stream gets exactly the dependencies of the
definition if and only if each of them is recognised. -/
theorem dependencies_exact_iff (stream : List (Entry lastReg))
    (admissible : Admissible stream) :
    (∃ uops, start.track stream = .ok uops ∧ Exact [] stream uops) ↔
      AllRecognised [] stream := by
  apply exact_track_iff agrees_start _ admissible
  exact ⟨List.Pairwise.nil, by simp, by simp⟩

/-- A barrier and a load behind it. -/
def barrierThenLoad (first : Nat) : List (Entry 0) :=
  [⟨{ microOp := { uopType := .execute, membar := true },
      sequenceNumber := first }, first - 1⟩,
    ⟨{ microOp := { uopType := .load }, sequenceNumber := first + 1 }, first - 1⟩]

theorem admissible_barrierThenLoad (first : Nat) :
    Admissible (barrierThenLoad first) := by
  constructor <;> simp [barrierThenLoad, memoryProducers]
  all_goals omega

theorem dependencies_exact_barrierThenLoad :
    ∃ uops, start.track (barrierThenLoad 1) = .ok uops ∧
      Exact [] (barrierThenLoad 1) uops :=
  (dependencies_exact_iff (barrierThenLoad 1)
    (admissible_barrierThenLoad 1)).mpr
      ⟨⟨by decide, by decide⟩, ⟨by decide, by decide⟩, trivial⟩

/-- The barrier with number `0` is the oldest valid micro-operation. -/
theorem oldest_barrier_missed :
    Admissible (barrierThenLoad 0) ∧
      ¬ ∃ uops, start.track (barrierThenLoad 0) = .ok uops ∧
        Exact [] (barrierThenLoad 0) uops := by
  refine ⟨admissible_barrierThenLoad 0, ?_⟩
  rintro ⟨uops, run, exact⟩
  cases run
  have length := exact.2.1.length_eq
  revert length
  decide

end Dependencies

end ChipletSniper.Rob
