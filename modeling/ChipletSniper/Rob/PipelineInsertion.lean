import ChipletSniper.Rob.Pipeline

/-!
# The pipeline when micro-operations are added

The history of what was added determines the producers of every entry.  An
entry still waits for a producer, or knows the time of its result.
-/

namespace ChipletSniper.Rob

open Library (Outcome)

variable {lastReg : Nat} {Outside : Type}

/-! ## The tables -/

namespace Dependencies

theorem addSources_elsewhere (lowest : Nat) (sources : List (Fin lastReg))
    (registers : RegisterDependencies lastReg) (uop : DynamicMicroOp lastReg) :
    Outcome Failure.Elsewhere (fun result => Extended uop result.2)
      (RegisterDependencies.addSources lowest sources registers uop) := by
  have safe : Outcome Failure.Elsewhere (fun _ => True)
      (RegisterDependencies.addSources lowest sources registers uop) := by
    obtain ⟨next, same, -⟩ := addSources_eq lowest sources registers uop
    rw [same]
    apply (uop.addDependencies_elsewhere _).map
    exact fun _ _ => trivial
  exact safe.strengthen fun _ run _ => addSources_ok run

variable {past : List (DynamicMicroOp lastReg)} {before : Nat}
  {tables : Dependencies lastReg} {entry : Entry lastReg}

/-- A store for which there is no room. -/
theorem setDependencies_full (agrees : Agrees past before tables)
    (descending : Descending past) (sliding : before ≤ entry.lowest)
    (isStore : entry.uop.microOp.isStore = true)
    (full : ¬ (stores past entry.lowest).length < memoryProducers) :
    Outcome Failure.Elsewhere (fun _ => False)
      (tables.setDependencies entry) := by
  have notLoad : entry.uop.microOp.isLoad = false := by
    unfold MicroOp.isLoad MicroOp.isStore at *
    rw [of_decide_eq_true isStore]
    rfl
  have cleaned : (tables.memory.clean entry.lowest).producers =
      stores past entry.lowest := by
    unfold MemoryDependencies.clean
    rw [agrees.producers]
    exact clean_stores descending sliding
  have registers : Outcome Failure.Elsewhere
      (fun result => result.2.microOp = entry.uop.microOp)
      (tables.registers.setDependencies entry.uop entry.lowest) := by
    apply (addSources_elsewhere _ _ _ _).bind
    exact fun _ extended => extended.same.microOp
  apply registers.bind
  intro result sameOp
  unfold MemoryDependencies.setDependencies MemoryDependencies.add
  dsimp only
  rw [sameOp, notLoad, isStore, cleaned, if_neg full]
  exact Failure.noConfusion

theorem setDependencies_outcome (agrees : Agrees past before tables)
    (descending : Descending past) (sliding : before ≤ entry.lowest)
    (valid : entry.lowest ≤ entry.uop.sequenceNumber)
    (fresh : entry.uop.dependencies = []) :
    Outcome Failure.Elsewhere (fun result =>
        entry.uop.addDependencies (foundProducers past entry) = .ok result.2 ∧
          Agrees (entry.uop :: past) entry.lowest result.1)
      (tables.setDependencies entry) := by
  by_cases room : entry.uop.microOp.isStore = true →
      (stores past entry.lowest).length < memoryProducers
  · obtain ⟨next, run, agreesNext⟩ :=
      setDependencies_eq agrees descending sliding valid room fresh
    rw [run]
    have safe : Outcome Failure.Elsewhere (fun uop =>
        entry.uop.addDependencies (foundProducers past entry) = .ok uop)
        (entry.uop.addDependencies (foundProducers past entry)) :=
      (entry.uop.addDependencies_elsewhere _).strengthen fun _ same _ => same
    apply safe.map
    exact fun _ added => ⟨added, agreesNext⟩
  · obtain ⟨isStore, full⟩ := Classical.not_imp.mp room
    apply (setDependencies_full agrees descending sliding isStore full).mono
    exact fun _ absurd => absurd.elim

/-- The numbers of what is found were added, and are valid. -/
theorem mem_foundProducers {number : Nat}
    (member : number ∈ foundProducers past entry) :
    entry.lowest ≤ number ∧ ∃ uop ∈ past, uop.sequenceNumber = number := by
  have isPast : ∀ {kind : DynamicMicroOp lastReg → Bool},
      latest past kind = some number →
        ∃ uop ∈ past, uop.sequenceNumber = number := by
    intro kind isLatest
    obtain ⟨uop, found, same⟩ := Option.map_eq_some_iff.mp isLatest
    exact ⟨uop, List.mem_of_find?_eq_some found, same⟩
  cases List.mem_append.mp member with
  | inl data =>
      obtain ⟨isData, valid⟩ := List.mem_filter.mp data
      refine ⟨of_decide_eq_true valid, ?_⟩
      cases List.mem_append.mp isData with
      | inl register =>
          obtain ⟨_, -, isLatest⟩ := List.mem_filterMap.mp register
          exact isPast isLatest
      | inr memory =>
          split at memory
          next => exact isPast (Option.mem_toList.mp memory)
          next => cases memory
  | inr fence =>
      rw [Option.mem_toList, Option.filter_eq_some_iff] at fence
      obtain ⟨isFence, valid⟩ := fence
      refine ⟨Nat.le_of_lt (of_decide_eq_true valid), ?_⟩
      unfold barrier at isFence
      split at isFence
      next => exact isPast isFence
      next => cases isFence

end Dependencies

/-! ## The history -/

/-- What holds of a micro-operation that is added: it has no dependencies yet,
it needs at least a cycle, and its range lies within the call that began at a
number. -/
structure Admitted (first number : Nat) (uop : DynamicMicroOp lastReg) :
    Prop where
  fresh : uop.dependencies = []
  latency : 0 < uop.execLatency
  fits : uop.Fits
  within : uop.intraInstructionDependencies = 0 ∨
    first + uop.microOpTypeOffset + uop.intraInstructionDependencies ≤ number

/-- The producers of a micro-operation among those in the queue: the registers,
the memory and its own instruction.  A barrier counts unless it is the oldest in
the queue. -/
def producersOf (past : List (DynamicMicroOp lastReg))
    (entry : Dependencies.Entry lastReg) : List Nat :=
  Dependencies.foundProducers past entry ++
    (List.range' entry.uop.firstIntra
      entry.uop.intraInstructionDependencies).filter (entry.lowest ≤ ·)

/-- The producers of the micro-operation with a number. -/
def producersAt (history : List (DynamicMicroOp lastReg))
    (number lowest : Nat) : List Nat :=
  match history[number]? with
  | none => []
  | some uop => producersOf (history.take number).reverse ⟨uop, lowest⟩

theorem producersAt_concat_old {history : List (DynamicMicroOp lastReg)}
    {number : Nat} (old : number < history.length)
    (uop : DynamicMicroOp lastReg) (lowest : Nat) :
    producersAt (history ++ [uop]) number lowest =
      producersAt history number lowest := by
  unfold producersAt
  rw [List.getElem?_append_left old, List.take_append_of_le_length
    (Nat.le_of_lt old)]

theorem producersAt_concat_new (history : List (DynamicMicroOp lastReg))
    (uop : DynamicMicroOp lastReg) (lowest : Nat) :
    producersAt (history ++ [uop]) history.length lowest =
      producersOf history.reverse ⟨uop, lowest⟩ := by
  unfold producersAt
  rw [List.getElem?_concat_length, List.take_left]

/-- An entry waits for a producer, or its producer was issued and it knows the
time of the result. -/
def Delivers (period : Nat) (entries : List (RobEntry lastReg)) (p : Nat)
    (entry : RobEntry lastReg) : Prop :=
  ∃ producer, entries[p]? = some producer ∧
    (p ∈ entry.uop.dependencyList ∨
      ∃ j : Nat, producer.issued = (j : SubsecondTime) ∧
        ((j + producer.uop.resultLatency * period : Nat) : SubsecondTime) ≤
          entry.readyMax)

/-- The tables and the entries agree with the history. -/
structure Recorded (period : Nat) (history : List (DynamicMicroOp lastReg))
    (timer : RobTimer lastReg Outside) : Prop where
  length : history.length = timer.entries.length
  numbered : ∀ {n : Nat} {uop : DynamicMicroOp lastReg},
    history[n]? = some uop → uop.sequenceNumber = n
  agrees : ∃ before, before ≤ timer.popped ∧
    Dependencies.Agrees history.reverse before
      ⟨timer.registerDependencies, timer.memoryDependencies⟩
  delivers : ∀ {l : Nat} {entry : RobEntry lastReg},
    timer.entries[l]? = some entry →
    ∀ p ∈ producersAt history l entry.lowest,
      Delivers period timer.entries p entry

namespace Recorded

variable {core : Core lastReg Outside} {timer next : RobTimer lastReg Outside}
  {history : List (DynamicMicroOp lastReg)}

theorem start (core : Core lastReg Outside) (outside : Outside) :
    Recorded core.period [] (RobTimer.start core outside) where
  length := rfl
  numbered found := by cases found
  agrees := ⟨0, Nat.le_refl _, Dependencies.agrees_start⟩
  delivers found := by cases found

theorem descending {period : Nat} (recorded : Recorded period history timer) :
    Dependencies.Descending history.reverse := by
  unfold Dependencies.Descending
  rw [List.pairwise_reverse, List.pairwise_iff_getElem]
  intro first second inFirst inSecond less
  rw [recorded.numbered (List.getElem?_eq_getElem inFirst),
    recorded.numbered (List.getElem?_eq_getElem inSecond)]
  exact less

theorem number_lt {period : Nat} (recorded : Recorded period history timer)
    {uop : DynamicMicroOp lastReg} (member : uop ∈ history.reverse) :
    uop.sequenceNumber < timer.entries.length := by
  obtain ⟨n, found⟩ :=
    List.mem_iff_getElem?.mp (List.mem_reverse.mp member)
  obtain ⟨inside, -⟩ := List.getElem?_eq_some_iff.mp found
  rw [recorded.numbered found, ← recorded.length]
  exact inside

/-- What happens to the entries, without an addition. -/
theorem of_pointwise {period : Nat} (recorded : Recorded period history timer)
    {relation : Nat → RobEntry lastReg → RobEntry lastReg → Prop}
    (pointwise : Library.Pointwise relation timer.entries next.entries)
    (popped : timer.popped ≤ next.popped)
    (registers : next.registerDependencies = timer.registerDependencies)
    (memory : next.memoryDependencies = timer.memoryDependencies)
    (lowest : ∀ place before after, relation place before after →
      after.lowest = before.lowest)
    (delivers : ∀ {l : Nat} {before after : RobEntry lastReg},
      timer.entries[l]? = some before → relation l before after →
      ∀ p, Delivers period timer.entries p before →
        Delivers period next.entries p after) :
    Recorded period history next where
  length := recorded.length.trans pointwise.length.symm
  numbered := recorded.numbered
  agrees := by
    obtain ⟨before, le, agrees⟩ := recorded.agrees
    rw [registers, memory]
    exact ⟨before, le.trans popped, agrees⟩
  delivers := by
    intro l after foundAfter p isProducer
    obtain ⟨before, foundBefore, related⟩ := pointwise.backward foundAfter
    rw [lowest l before after related] at isProducer
    exact delivers foundBefore related p
      (recorded.delivers foundBefore p isProducer)

theorem sameQueue {period : Nat} (recorded : Recorded period history timer)
    (same : RobTimer.SameQueue timer next) : Recorded period history next := by
  rw [same]
  exact ⟨recorded.length, recorded.numbered, recorded.agrees,
    recorded.delivers⟩

theorem dispatchEntry {period : Nat} (recorded : Recorded period history timer)
    {entry : RobEntry lastReg}
    (found : timer.entryAt timer.numInRob = some entry) :
    Recorded period history (timer.dispatchEntry core entry) := by
  have pointwise : Library.Pointwise _ timer.entries
      (timer.dispatchEntry core entry).entries :=
    pointwise_replaced found (entry.dispatch timer.now core.period)
  apply recorded.of_pointwise pointwise (Nat.le_refl _) rfl rfl
  · intro place before after replaced
    obtain ⟨_, _, rfl, -, -⟩ := replaced.dispatch
    rfl
  · intro l before after foundBefore replaced p delivers
    obtain ⟨producer, foundProducer, known⟩ := delivers
    obtain ⟨_, foundAfter, replacedProducer⟩ :=
      pointwise.forward foundProducer
    obtain ⟨_, _, rfl, -, -⟩ := replaced.dispatch
    obtain ⟨_, _, rfl, -, -⟩ := replacedProducer.dispatch
    exact ⟨_, foundAfter, known⟩

theorem issues (recorded : Recorded core.period history timer)
    (pipeline : Pipeline core timer) {idx latency done : Nat} {known : Bool}
    {entry : RobEntry lastReg} (found : timer.entryAt idx = some entry)
    (waiting : entry.done = ⊤)
    (issues : RobTimer.Issues core timer next (timer.popped + idx) entry latency
      done known) : Recorded core.period history next := by
  have pointwise := pipeline.pointwise_issues found waiting issues
  have notIssued := (pipeline.timed found).done_iff.mp waiting
  apply recorded.of_pointwise pointwise
  · rw [issues.rest]
  · rw [issues.rest]
  · rw [issues.rest]
  · exact fun _ _ _ effect => effect.lowest
  · intro l before after _ effect p delivers
    obtain ⟨producer, foundProducer, known⟩ := delivers
    obtain ⟨afterProducer, foundAfter, effectProducer⟩ :=
      pointwise.forward foundProducer
    refine ⟨afterProducer, foundAfter, ?_⟩
    cases known with
    | inl listed =>
        by_cases same : p = timer.popped + idx
        · right
          refine ⟨timer.now, effectProducer.issued_of_eq same, ?_⟩
          rw [effectProducer.resultLatency_of_eq same, effect.readyMax, ← same,
            if_pos listed]
          exact le_max_right _ _
        · exact Or.inl ((effect.mem_iff p).mpr ⟨listed, same⟩)
    | inr delivered =>
        obtain ⟨j, isIssued, later⟩ := delivered
        have different : p ≠ timer.popped + idx := by
          intro same
          rw [effectProducer.itself same, notIssued] at isIssued
          exact WithTop.coe_ne_top isIssued.symm
        right
        refine ⟨j, ?_, ?_⟩
        · rw [effectProducer.issued_of_ne different]
          exact isIssued
        · rw [effectProducer.resultLatency different, effect.readyMax]
          split
          next => exact later.trans (le_max_left _ _)
          next => exact later

theorem pop {period : Nat} (recorded : Recorded period history timer) :
    Recorded period history timer.pop where
  length := recorded.length
  numbered := recorded.numbered
  agrees := by
    obtain ⟨before, le, agrees⟩ := recorded.agrees
    exact ⟨before, Nat.le_succ_of_le le, agrees⟩
  delivers := recorded.delivers

theorem tick {period : Nat} (recorded : Recorded period history timer)
    (time : Nat) : Recorded period history { timer with now := time } :=
  ⟨recorded.length, recorded.numbered, recorded.agrees, recorded.delivers⟩

end Recorded

/-! ## No entry is missed -/

namespace RobTimer

variable {core : Core lastReg Outside} {timer : RobTimer lastReg Outside}
  {history : List (DynamicMicroOp lastReg)} {uop : DynamicMicroOp lastReg}

theorem addAddressProducers_elsewhere {period : Nat} (indexed : timer.Indexed)
    (recorded : Recorded period history timer)
    (registers : List (Option (Fin lastReg))) (entry : RobEntry lastReg) :
    Outcome Failure.Elsewhere (fun _ => True)
      (timer.addAddressProducers timer.popped registers entry) := by
  induction registers generalizing entry with
  | nil => trivial
  | cons register rest ih =>
      rw [addAddressProducers]
      split
      next => exact ih entry
      next producer found =>
        have valid : timer.popped ≤ producer ∧
            producer < timer.entries.length := by
          unfold RegisterDependencies.peekProducer at found
          split at found
          next => cases found
          next register =>
            split at found
            next => cases found
            next other isProducer =>
              split at found
              next => cases found
              next notSmaller =>
                cases found
                obtain ⟨before, le, agrees⟩ := recorded.agrees
                have isLatest := (agrees.registers register producer
                  (by omega)).mp isProducer
                obtain ⟨uop, isPast, same⟩ :=
                  Option.map_eq_some_iff.mp isLatest
                have known := recorded.number_lt
                  (List.mem_of_find?_eq_some isPast)
                omega
        apply (findEntryBySequenceNumber_elsewhere indexed
          (indexed.lowest_le valid.1 valid.2) valid.2).bind
        intro prodEntry _
        split
        next => exact ih _
        next => exact ih _

/-- The queue while the dependencies of a new entry are registered. -/
def Unmoved (first : RobTimer lastReg Outside)
    (registration : Registration lastReg Outside) : Prop :=
  registration.timer.Indexed ∧
    registration.timer.popped = first.popped ∧
    registration.timer.entries.length = first.entries.length

theorem add_elsewhere {number p : Nat}
    {registration : Registration lastReg Outside}
    (unmoved : timer.Unmoved registration)
    (known : timer.popped ≤ p ∧ p < timer.entries.length) :
    Outcome Failure.Elsewhere timer.Unmoved (registration.add number p) := by
  obtain ⟨indexed, samePopped, sameLength⟩ := unmoved
  obtain ⟨low, high⟩ := known
  rw [← samePopped] at low
  rw [← sameLength] at high
  unfold Registration.add
  apply (findEntryBySequenceNumber_elsewhere indexed
    (indexed.lowest_le low high) high).bind
  intro prodEntry found
  split
  next =>
    split
    next => exact ⟨indexed, samePopped, sameLength⟩
    next => exact Failure.noConfusion
  next =>
    refine ⟨?_, samePopped, List.length_set.trans sameLength⟩
    exact indexed.update found rfl
      (indexed.ranged prodEntry (List.mem_of_getElem? found)) rfl

theorem registration_elsewhere {number : Nat} {dependencies : List Nat}
    {first : Registration lastReg Outside} (indexed : first.timer.Indexed)
    (known : ∀ p ∈ dependencies,
      first.timer.popped ≤ p ∧ p < first.timer.entries.length) :
    Outcome Failure.Elsewhere (fun _ => True)
      (dependencies.foldlM (fun registration dependency =>
        registration.add number dependency) first) := by
  have kept : Outcome Failure.Elsewhere first.timer.Unmoved
      (dependencies.foldlM (fun registration dependency =>
        registration.add number dependency) first) := by
    apply Outcome.foldlM _ ⟨indexed, rfl, rfl⟩
    intro p member registration inv
    exact add_elsewhere inv (known p member)
  exact kept.mono fun _ _ => trivial

/-- The dependencies of a micro-operation that the tables return. -/
theorem tracked_outcome (pipeline : Pipeline core timer)
    (recorded : Recorded core.period history timer) {first : Nat}
    (early : timer.popped ≤ first)
    (admitted : Admitted first timer.nextSequenceNumber uop) :
    Outcome Failure.Elsewhere (fun result =>
        (∀ p, p ∈ result.2.dependencyList ↔ p ∈ producersOf history.reverse
          ⟨timer.numberedUop uop, timer.popped⟩) ∧
        (∀ p ∈ result.2.dependencyList,
          timer.popped ≤ p ∧ p < timer.entries.length) ∧
        Dependencies.Agrees (timer.numberedUop uop :: history.reverse)
          timer.popped result.1)
      (timer.setDependencies (timer.numberedUop uop) timer.popped) := by
  obtain ⟨before, le, agrees⟩ := recorded.agrees
  have next : timer.nextSequenceNumber = timer.entries.length :=
    pipeline.base.next
  have valid : timer.popped ≤ (timer.numberedUop uop).sequenceNumber :=
    le_of_le_of_eq pipeline.base.popped next.symm
  have tables := @Dependencies.setDependencies_outcome lastReg _ _ _
    ⟨timer.numberedUop uop, timer.popped⟩ agrees recorded.descending le valid
    admitted.fresh
  apply tables.mono
  intro result known
  obtain ⟨added, agreesNext⟩ := known
  obtain ⟨-, -, members⟩ := DynamicMicroOp.addDependencies_ok added
  have own : ∀ p ∈ List.range' (timer.numberedUop uop).firstIntra
      uop.intraInstructionDependencies,
        timer.popped ≤ p ∧ p < timer.entries.length := by
    intro p inRange
    rw [List.mem_range'_1] at inRange
    cases admitted.within with
    | inl empty => omega
    | inr within =>
        have isInRange : (timer.numberedUop uop).inRange := by
          change uop.microOpTypeOffset + uop.intraInstructionDependencies ≤
            timer.nextSequenceNumber
          omega
        unfold DynamicMicroOp.firstIntra at inRange
        rw [if_pos isInRange] at inRange
        change timer.nextSequenceNumber - uop.microOpTypeOffset -
          uop.intraInstructionDependencies ≤ p ∧ p <
            timer.nextSequenceNumber - uop.microOpTypeOffset -
              uop.intraInstructionDependencies +
                uop.intraInstructionDependencies at inRange
        omega
  have same : ∀ p, p ∈ result.2.dependencyList ↔ p ∈ producersOf
      history.reverse ⟨timer.numberedUop uop, timer.popped⟩ := by
    intro p
    rw [members, producersOf, List.mem_append, List.mem_filter,
      DynamicMicroOp.dependencyList_eq]
    change p ∈ _ ++ uop.dependencies ∨ _ ↔ _
    rw [admitted.fresh, List.append_nil, or_comm]
    apply or_congr Iff.rfl
    constructor
    · exact fun inRange => ⟨inRange, decide_eq_true (own p inRange).1⟩
    · exact fun both => both.1
  refine ⟨same, ?_, agreesNext⟩
  intro p member
  cases List.mem_append.mp ((same p).mp member) with
  | inl found =>
      obtain ⟨low, other, isPast, number⟩ :=
        Dependencies.mem_foundProducers found
      have known := recorded.number_lt isPast
      exact ⟨low, by omega⟩
  | inr intra => exact own p (List.mem_of_mem_filter intra)

/-- Without forwarding, a load keeps its dependencies. -/
theorem forward_of_disabled (disabled : core.storeToLoadForwarding = false)
    (tracked : DynamicMicroOp lastReg) :
    timer.forward core tracked = .ok tracked := by
  unfold forward
  rw [disabled]
  rfl

theorem resolveAddress_elsewhere (pipeline : Pipeline core timer)
    (recorded : Recorded core.period history timer)
    (entry : RobEntry lastReg) :
    Outcome Failure.Elsewhere (fun next => next.uop = entry.uop)
      (timer.resolveAddress timer.popped entry) := by
  have safe : Outcome Failure.Elsewhere (fun _ => True)
      (timer.resolveAddress timer.popped entry) := by
    unfold resolveAddress
    split
    next =>
      apply (addAddressProducers_elsewhere pipeline.indexed recorded _ _).bind
      intro next _
      split
      next => trivial
      next => trivial
    next => trivial
  apply safe.strengthen
  intro next run _
  obtain ⟨_, _, _, rfl, -⟩ := resolveAddress_ok pipeline.base.numbered run
  rfl

/-- Adding a micro-operation finds every entry that it looks for. -/
theorem insert_elsewhere (disabled : core.storeToLoadForwarding = false)
    (pipeline : Pipeline core timer)
    (recorded : Recorded core.period history timer) {first : Nat}
    (early : timer.popped ≤ first)
    (admitted : Admitted first timer.nextSequenceNumber uop) :
    Outcome Failure.Elsewhere (fun _ => True) (timer.insert core uop) := by
  unfold insert
  split
  next =>
    rw [lowestValidSequenceNumber_eq pipeline.base]
    apply (resolveAddress_elsewhere pipeline recorded _).bind
    intro entry sameUop
    rw [sameUop]
    apply (tracked_outcome pipeline recorded early admitted).bind
    intro result known
    obtain ⟨-, inside, -⟩ := known
    dsimp only
    rw [forward_of_disabled disabled]
    apply (registration_elsewhere pipeline.indexed inside).bind
    intro registration _
    apply (DynamicMicroOp.removeDependencies_elsewhere _ _).bind
    exact fun _ _ => trivial
  next => exact Failure.noConfusion

end RobTimer

/-! ## The new entry -/

section Insert

variable {core : Core lastReg Outside} {timer next : RobTimer lastReg Outside}
  {history : List (DynamicMicroOp lastReg)} {uop : DynamicMicroOp lastReg}
  {tables : Dependencies lastReg} {tracked forwarded : DynamicMicroOp lastReg}
  {registered : List (RobEntry lastReg)} {new : RobEntry lastReg}

theorem length_insert (pipeline : Pipeline core timer)
    (inserted : RobTimer.Inserted core timer next uop tables tracked forwarded
      registered new) : next.entries.length = timer.entries.length + 1 := by
  rw [inserted.rest]
  change (registered ++ [new]).length = _
  rw [List.length_append, inserted.length pipeline.base,
    List.length_singleton]
  exact congrArg (· + 1) pipeline.base.next

theorem Pipeline.insert (pipeline : Pipeline core timer)
    (latency : 0 < uop.execLatency)
    (inserted : RobTimer.Inserted core timer next uop tables tracked forwarded
      registered new) : Pipeline core next := by
  have length := length_insert pipeline inserted
  have number : timer.nextSequenceNumber = timer.entries.length :=
    pipeline.base.next
  have inside := pipeline.inside
  have samePopped : next.popped = timer.popped := by
    rw [inserted.rest]
  have sameNumber : next.numInRob = timer.numInRob := by
    rw [inserted.rest]
  have sameNow : next.now = timer.now := by
    rw [inserted.rest]
  have sameUsed : next.rsEntriesUsed = timer.rsEntriesUsed := by
    rw [inserted.rest]
  constructor
  case base => exact inserted.base pipeline.base
  case window => exact le_of_eq_of_le sameNumber pipeline.window
  case inside => omega
  case dispatched =>
    intro n entry found inWindow
    rw [samePopped, sameNumber] at inWindow
    cases inserted.cases_entry pipeline.base found with
    | inl oldEntry =>
        obtain ⟨-, before, _, foundBefore, rfl⟩ := oldEntry
        have dispatched := pipeline.dispatched foundBefore inWindow
        exact dispatched
    | inr newEntry => exact absurd newEntry.1 (Nat.ne_of_lt (by omega))
  case committed =>
    intro n entry found early
    rw [samePopped] at early
    rw [sameNow]
    cases inserted.cases_entry pipeline.base found with
    | inl oldEntry =>
        obtain ⟨-, before, _, foundBefore, rfl⟩ := oldEntry
        have done := pipeline.committed foundBefore early
        exact done
    | inr newEntry => exact absurd newEntry.1 (Nat.ne_of_lt (by omega))
  case used =>
    have sameWaits : registered.map RobEntry.waits =
        timer.entries.map RobEntry.waits := by
      apply inserted.pointwise.map_eq
      intro _ before after related
      obtain ⟨_, rfl⟩ := related.eq
      rfl
    have counts := congrArg (List.countP id) sameWaits
    rw [List.countP_map, List.countP_map] at counts
    have waits : new.waits = false := by
      rw [RobEntry.waits, inserted.dispatched]
      rfl
    rw [sameUsed, pipeline.used, inserted.rest]
    change _ = (registered ++ [new]).countP RobEntry.waits
    rw [List.countP_append, List.countP_singleton, waits]
    exact counts.symm
  case stations => exact le_of_eq_of_le sameUsed pipeline.stations
  case timed =>
    intro n entry found
    rw [sameNow]
    cases inserted.cases_entry pipeline.base found with
    | inl oldEntry =>
        obtain ⟨-, before, _, foundBefore, rfl⟩ := oldEntry
        have timed := pipeline.timed foundBefore
        exact ⟨timed.latency, timed.done_iff, timed.dispatched, timed.issued⟩
    | inr newEntry =>
        obtain ⟨-, rfl⟩ := newEntry
        refine ⟨?_, ?_, ?_, ?_⟩
        · rw [inserted.latency]
          exact latency
        · exact iff_of_true inserted.done inserted.issued
        · intro d isDispatched
          rw [inserted.dispatched] at isDispatched
          cases isDispatched
        · intro i isIssued
          rw [inserted.issued] at isIssued
          exact absurd isIssued.symm WithTop.coe_ne_top
  case addresses =>
    intro entry member p isProducer
    obtain ⟨n, found⟩ := List.mem_iff_getElem?.mp member
    have below : p < timer.entries.length := by
      cases inserted.cases_entry pipeline.base found with
      | inl oldEntry =>
          obtain ⟨-, before, _, foundBefore, rfl⟩ := oldEntry
          exact pipeline.addresses before (List.mem_of_getElem? foundBefore) p
            isProducer
      | inr newEntry =>
          obtain ⟨-, rfl⟩ := newEntry
          exact inserted.addresses p isProducer
    omega

/-- What was added earlier stays as it is. -/
theorem advances_insert
    (inserted : RobTimer.Inserted core timer next uop tables tracked forwarded
      registered new) {n : Nat} {before : RobEntry lastReg}
    (found : timer.entries[n]? = some before) :
    ∃ after, next.entries[n]? = some after ∧
      Advances core.period timer.now before after :=
  ⟨_, inserted.old_entry found, rfl, rfl, Or.inl rfl, Or.inl rfl⟩

theorem Recorded.insert (disabled : core.storeToLoadForwarding = false)
    (pipeline : Pipeline core timer)
    (recorded : Recorded core.period history timer) {first : Nat}
    (early : timer.popped ≤ first)
    (admitted : Admitted first timer.nextSequenceNumber uop)
    (inserted : RobTimer.Inserted core timer next uop tables tracked forwarded
      registered new) :
    Recorded core.period (history ++ [timer.numberedUop uop]) next := by
  have length := length_insert pipeline inserted
  have number : timer.nextSequenceNumber = timer.entries.length :=
    pipeline.base.next
  have sameLength := recorded.length
  have lowest := RobTimer.lowestValidSequenceNumber_eq pipeline.base
  have track := inserted.track
  rw [lowest] at track
  obtain ⟨members, -, agrees⟩ :=
    (RobTimer.tracked_outcome pipeline recorded early admitted).of_ok track
  have forward := inserted.forward
  rw [RobTimer.forward_of_disabled disabled] at forward
  cases forward
  have old : ∀ {p : Nat} {before : RobEntry lastReg},
      timer.entries[p]? = some before → ∃ dependants,
        next.entries[p]? = some { before with dependants := dependants } :=
    fun found => ⟨_, inserted.old_entry found⟩
  constructor
  case length =>
    rw [List.length_append, List.length_singleton, length, recorded.length]
  case numbered =>
    intro n other found
    by_cases inside : n < history.length
    · rw [List.getElem?_append_left inside] at found
      exact recorded.numbered found
    · rw [List.getElem?_append_right (Nat.not_lt.mp inside)] at found
      obtain ⟨isFirst, same⟩ := List.getElem?_eq_some_iff.mp found
      rw [List.length_singleton] at isFirst
      rw [List.getElem_singleton] at same
      rw [← same]
      change timer.nextSequenceNumber = n
      omega
  case agrees =>
    refine ⟨timer.popped, ?_, ?_⟩
    · rw [inserted.rest]
    · rw [List.reverse_append, inserted.rest]
      exact agrees
  case delivers =>
    intro l entry found p isProducer
    cases inserted.cases_entry pipeline.base found with
    | inl oldEntry =>
        obtain ⟨inside, before, _, foundBefore, rfl⟩ := oldEntry
        rw [producersAt_concat_old (by omega)] at isProducer
        obtain ⟨producer, foundProducer, known⟩ :=
          recorded.delivers foundBefore p isProducer
        obtain ⟨_, foundAfter⟩ := old foundProducer
        exact ⟨_, foundAfter, known⟩
    | inr newEntry =>
        obtain ⟨isNew, rfl⟩ := newEntry
        rw [isNew, number, ← recorded.length, producersAt_concat_new,
          inserted.lowest, lowest] at isProducer
        have listed := (members p).mpr isProducer
        obtain ⟨producer, foundProducer⟩ := inserted.found p listed
        obtain ⟨_, foundAfter⟩ := old foundProducer
        refine ⟨_, foundAfter, ?_⟩
        by_cases waiting : producer.done = ⊤
        · left
          apply List.count_pos_iff.mp
          rw [inserted.counts p producer foundProducer, if_pos waiting]
          exact List.count_pos_iff.mpr listed
        · right
          have isIssued : producer.issued ≠ ⊤ := fun waits =>
            waiting ((pipeline.timed foundProducer).done_iff.mpr waits)
          obtain ⟨j, same⟩ := WithTop.ne_top_iff_exists.mp isIssued
          obtain ⟨-, -, -, later⟩ :=
            (pipeline.timed foundProducer).issued same.symm
          exact ⟨j, same.symm,
            later.trans (inserted.known p listed producer foundProducer waiting)⟩

end Insert

end ChipletSniper.Rob
