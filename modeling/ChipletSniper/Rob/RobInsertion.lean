import ChipletSniper.Rob.RobStages

/-!
# Adding a micro-operation to the reorder buffer

A new entry depends on those of its producers that are not issued, and knows
the times of the others.  Each producer that is not issued lists it as often
as it depends on the producer.
-/

namespace ChipletSniper.Rob

variable {lastReg : Nat} {Outside : Type}

/-! ## The tables -/

/-- Dependencies that were added. -/
structure Extended (uop next : DynamicMicroOp lastReg) : Prop where
  same : DynamicMicroOp.SameButDependencies uop next
  intra : next.intraInstructionDependencies = uop.intraInstructionDependencies
  mem : ∀ {number}, number ∈ uop.dependencyList → number ∈ next.dependencyList

namespace Extended

variable {uop next : DynamicMicroOp lastReg}

theorem refl (uop : DynamicMicroOp lastReg) : Extended uop uop :=
  ⟨rfl, rfl, id⟩

theorem trans {last : DynamicMicroOp lastReg} (head : Extended uop next)
    (tail : Extended next last) : Extended uop last :=
  ⟨head.same.trans tail.same, tail.intra.trans head.intra,
    fun member => tail.mem (head.mem member)⟩

theorem of_addDependencies {numbers : List Nat}
    (run : uop.addDependencies numbers = .ok next) : Extended uop next := by
  obtain ⟨same, intra, members⟩ := DynamicMicroOp.addDependencies_ok run
  exact ⟨same, intra, fun member => (members _).mpr (Or.inl member)⟩

theorem of_addProducer {producer : Option Nat}
    (run : uop.addProducer producer = .ok next) : Extended uop next := by
  rw [DynamicMicroOp.addProducer_eq] at run
  exact of_addDependencies run

end Extended

namespace DynamicMicroOp.SameButDependencies

variable {uop next : DynamicMicroOp lastReg}

theorem microOpTypeOffset (same : SameButDependencies uop next) :
    next.microOpTypeOffset = uop.microOpTypeOffset := by
  unfold SameButDependencies at same
  rw [same]

theorem inRange_iff (same : SameButDependencies uop next)
    (intra : next.intraInstructionDependencies =
      uop.intraInstructionDependencies) : next.inRange ↔ uop.inRange := by
  unfold inRange
  rw [same.microOpTypeOffset, same.sequenceNumber, intra]

theorem ranged_iff (same : SameButDependencies uop next)
    (intra : next.intraInstructionDependencies =
      uop.intraInstructionDependencies) : next.Ranged ↔ uop.Ranged := by
  unfold Ranged
  rw [same.inRange_iff intra, intra]

end DynamicMicroOp.SameButDependencies

theorem addSources_ok {lowest : Nat} {sources : List (Fin lastReg)}
    {registers next : RegisterDependencies lastReg}
    {uop tracked : DynamicMicroOp lastReg}
    (run : RegisterDependencies.addSources lowest sources registers uop =
      .ok (next, tracked)) : Extended uop tracked := by
  obtain ⟨_, same, -⟩ :=
    Dependencies.addSources_eq lowest sources registers uop
  rw [same] at run
  obtain ⟨_, added, result⟩ := Library.map_eq_ok.mp run
  cases result
  exact Extended.of_addDependencies added

/-- What the two tables do to a micro-operation, and to the stores that are
kept. -/
theorem setDependencies_ok {past : List (DynamicMicroOp lastReg)}
    {before : Nat} {tables next : Dependencies lastReg}
    {uop tracked : DynamicMicroOp lastReg} {lowest : Nat}
    (descending : Dependencies.Descending past)
    (producers : tables.memory.producers = Dependencies.stores past before)
    (sliding : before ≤ lowest) (valid : lowest ≤ uop.sequenceNumber)
    (run : tables.setDependencies ⟨uop, lowest⟩ = .ok (next, tracked)) :
    Extended uop tracked ∧
      next.memory.producers = Dependencies.stores (uop :: past) lowest ∧
      ∀ store, uop.microOp.isLoad = true →
        Dependencies.latest past (Dependencies.storesTo uop.address) =
          some store →
        lowest ≤ store → store ∈ tracked.dependencyList := by
  obtain ⟨⟨registers, read⟩, registerRun, run⟩ := Library.bind_eq_ok.mp run
  obtain ⟨⟨memory, result⟩, memoryRun, run⟩ := Library.bind_eq_ok.mp run
  cases run
  obtain ⟨⟨table, added⟩, sources, registerRun⟩ :=
    Library.bind_eq_ok.mp registerRun
  cases registerRun
  have extended := addSources_ok sources
  have sameOp := extended.same.microOp
  have sameAddress := extended.same.address
  have sameNumber := extended.same.sequenceNumber
  have cleaned : (tables.memory.clean lowest).producers =
      Dependencies.stores past lowest := by
    unfold MemoryDependencies.clean
    rw [producers]
    exact Dependencies.clean_stores descending sliding
  have kept := Dependencies.stores_cons uop past valid
  unfold MemoryDependencies.setDependencies at memoryRun
  rw [sameOp] at memoryRun
  by_cases isLoad : uop.microOp.isLoad = true
  · have notStore : uop.microOp.isStore = false := by
      unfold MicroOp.isLoad MicroOp.isStore at *
      rw [of_decide_eq_true isLoad]
      rfl
    simp only [isLoad, if_true] at memoryRun
    obtain ⟨found, addStore, memoryRun⟩ := Library.bind_eq_ok.mp memoryRun
    obtain ⟨last, addMembar, memoryRun⟩ := Library.bind_eq_ok.mp memoryRun
    cases memoryRun
    have second := Extended.of_addProducer addMembar
    refine ⟨extended.trans ((Extended.of_addProducer addStore).trans second),
      ?_, ?_⟩
    · rw [kept, notStore]
      exact cleaned
    · intro store _ isLatest isValid
      apply second.mem
      have isFound : (tables.memory.clean lowest).find read.address =
          some store := by
        have find := Dependencies.find_stores descending lowest read.address
          (tables.memory.clean lowest).membar
        rw [← cleaned] at find
        refine find.trans ?_
        rw [sameAddress, isLatest]
        simp [isValid]
      rw [isFound] at addStore
      obtain ⟨-, -, members⟩ := DynamicMicroOp.addDependency_ok addStore
      exact (members store).mpr (Or.inr rfl)
  · have noLoad : uop.microOp.isLoad = false := by
      simpa using isLoad
    refine and_assoc.mp ⟨?_, fun _ load => absurd load isLoad⟩
    simp only [noLoad, Bool.false_eq_true, if_false] at memoryRun
    split at memoryRun
    next isStore =>
      obtain ⟨grown, add, memoryRun⟩ := Library.bind_eq_ok.mp memoryRun
      obtain ⟨last, addMembar, memoryRun⟩ := Library.bind_eq_ok.mp memoryRun
      cases memoryRun
      refine ⟨extended.trans (Extended.of_addProducer addMembar), ?_⟩
      unfold MemoryDependencies.add at add
      split at add
      next =>
        cases add
        change (tables.memory.clean lowest).producers ++ [_] = _
        rw [cleaned, kept, if_pos isStore, sameAddress, sameNumber]
      next => cases add
    next notStore =>
      have noStore : uop.microOp.isStore = false := by
        simpa using notStore
      split at memoryRun
      next =>
        obtain ⟨last, addMembar, memoryRun⟩ := Library.bind_eq_ok.mp memoryRun
        cases memoryRun
        refine ⟨extended.trans (Extended.of_addProducer addMembar), ?_⟩
        rw [kept, noStore]
        exact cleaned
      next =>
        cases memoryRun
        refine ⟨extended, ?_⟩
        rw [kept, noStore]
        exact cleaned

/-! ## The dependencies of a new entry -/

/-- The fields that say where the range is have 32 bits. -/
def DynamicMicroOp.Fits (uop : DynamicMicroOp lastReg) : Prop :=
  uop.microOpTypeOffset + uop.intraInstructionDependencies < 2 ^ 64

/-- A range that wraps around starts behind all numbers. -/
theorem DynamicMicroOp.ranged_of_head {uop : DynamicMicroOp lastReg}
    (fits : uop.Fits)
    (below : ∀ first, uop.dependencyList.head? = some first →
      first < uop.sequenceNumber) : uop.Ranged := by
  by_contra wraps
  obtain ⟨outside, some⟩ := not_or.mp wraps
  obtain ⟨length, isLength⟩ := Nat.exists_eq_succ_of_ne_zero some
  have head : uop.dependencyList.head? =
      Option.some uop.firstIntra := by
    rw [dependencyList_eq, isLength, List.range'_succ]
    rfl
  have less := below _ head
  rw [firstIntra, if_neg outside] at less
  unfold Fits at fits
  omega

namespace RobTimer

variable {core : Core lastReg Outside} {timer : RobTimer lastReg Outside}

theorem findStore_head {dependencies : List Nat}
    {result : Option (Nat × RobEntry lastReg)} {first : Nat}
    (run : timer.findStore dependencies = .ok result)
    (head : dependencies.head? = some first) :
    ∃ entry, timer.findEntryBySequenceNumber first = .ok entry := by
  cases dependencies with
  | nil => cases head
  | cons dependency rest =>
      cases head
      obtain ⟨entry, found, -⟩ := Library.bind_eq_ok.mp run
      exact ⟨entry, found⟩

theorem findStore_some {dependencies : List Nat} {store : Nat}
    {entry : RobEntry lastReg}
    (run : timer.findStore dependencies = .ok (some (store, entry))) :
    timer.findEntryBySequenceNumber store = .ok entry ∧
      store ∈ dependencies := by
  induction dependencies with
  | nil => cases run
  | cons dependency rest ih =>
      obtain ⟨other, found, run⟩ := Library.bind_eq_ok.mp run
      split at run
      next =>
        cases run
        exact ⟨found, List.mem_cons_self⟩
      next =>
        obtain ⟨foundLater, member⟩ := ih run
        exact ⟨foundLater, List.mem_cons_of_mem _ member⟩

/-- A load whose first store is replaced by the producers of the store. -/
structure Forwards (core : Core lastReg Outside)
    (timer : RobTimer lastReg Outside)
    (tracked : DynamicMicroOp lastReg) (store : Nat)
    (entry : RobEntry lastReg) : Prop where
  enabled : core.storeToLoadForwarding = true
  isLoad : tracked.microOp.isLoad = true
  first : timer.findStore tracked.dependencyList = .ok (some (store, entry))

theorem forward_ok {tracked forwarded : DynamicMicroOp lastReg}
    (run : timer.forward core tracked = .ok forwarded) :
    forwarded = tracked ∨
      ∃ store entry removed, Forwards core timer tracked store entry ∧
        tracked.removeDependency store = .ok removed ∧
        removed.addDependencies entry.uop.dependencyList = .ok forwarded := by
  unfold forward at run
  split at run
  next both =>
    obtain ⟨enabled, isLoad⟩ := (Bool.and_eq_true _ _).mp both
    obtain ⟨result, found, run⟩ := Library.bind_eq_ok.mp run
    cases result with
    | none =>
        cases run
        exact Or.inl rfl
    | some pair =>
        obtain ⟨store, entry⟩ := pair
        obtain ⟨removed, remove, add⟩ := Library.bind_eq_ok.mp run
        exact Or.inr
          ⟨store, entry, removed, ⟨enabled, isLoad, found⟩, remove, add⟩
  next =>
    cases run
    exact Or.inl rfl

/-- The loop over the dependencies changes the dependants of a producer. -/
def Registered (number : Nat) (dependencies : List Nat) (place : Nat)
    (before after : RobEntry lastReg) : Prop :=
  after = { before with
    dependants := before.dependants ++ List.replicate
      (if before.done = ⊤ then dependencies.count place else 0) number }

/-- What the loop over the dependencies leaves. -/
structure Registers (entries : List (RobEntry lastReg)) (number : Nat)
    (dependencies : List Nat) (first last : Registration lastReg Outside) :
    Prop where
  timer : last.timer = { first.timer with entries := last.timer.entries }
  found : ∀ p ∈ dependencies, ∃ producer : RobEntry lastReg,
    entries[p]? = some producer
  registered : Library.Pointwise (Registered number dependencies) entries
    last.timer.entries
  readyMax : first.readyMax ≤ last.readyMax
  known : ∀ p ∈ dependencies, ∀ producer : RobEntry lastReg,
    entries[p]? = some producer → producer.done ≠ ⊤ →
      producer.done ≤ last.readyMax
  toRemove : ∀ (p : Nat) (producer : RobEntry lastReg),
    entries[p]? = some producer →
    last.toRemove.count p = first.toRemove.count p +
      if producer.done = ⊤ then 0 else dependencies.count p

namespace Registers

variable {entries : List (RobEntry lastReg)} {number : Nat}
  {first middle last : Registration lastReg Outside}

theorem trans {head tail : List Nat}
    (before : Registers entries number head first middle)
    (after : Registers middle.timer.entries number tail middle last) :
    Registers entries number (head ++ tail) first last where
  timer := by
    rw [after.timer, before.timer]
  found := by
    intro p member
    cases List.mem_append.mp member with
    | inl early => exact before.found p early
    | inr late =>
        obtain ⟨_, foundNext⟩ := after.found p late
        obtain ⟨producer, foundBefore, -⟩ :=
          before.registered.backward foundNext
        exact ⟨producer, foundBefore⟩
  registered := by
    apply before.registered.trans _ after.registered
    intro place entry next final related relatedLast
    unfold Registered at *
    subst related
    rw [relatedLast]
    by_cases waiting : entry.done = ⊤
    · simp only [waiting, if_true, List.count_append, List.append_assoc,
        List.replicate_append_replicate]
    · simp only [waiting, if_false, List.replicate_zero, List.append_nil]
  readyMax := before.readyMax.trans after.readyMax
  known := by
    intro p member producer foundProducer finished
    obtain ⟨next, foundNext, related⟩ :=
      before.registered.forward foundProducer
    have sameDone : next.done = producer.done := by
      unfold Registered at related
      rw [related]
    cases List.mem_append.mp member with
    | inl early =>
        exact (before.known p early producer foundProducer finished).trans
          after.readyMax
    | inr late =>
        rw [← sameDone] at finished ⊢
        exact after.known p late next foundNext finished
  toRemove := by
    intro p producer foundProducer
    obtain ⟨next, foundNext, related⟩ :=
      before.registered.forward foundProducer
    have sameDone : next.done = producer.done := by
      unfold Registered at related
      rw [related]
    rw [after.toRemove p next foundNext, sameDone,
      before.toRemove p producer foundProducer, List.count_append]
    split <;> omega

/-- One dependency. -/
theorem single {dependency : Nat}
    (numbered : ∀ {n : Nat} {entry : RobEntry lastReg},
      first.timer.entries[n]? = some entry → entry.uop.sequenceNumber = n)
    (run : first.add number dependency = .ok last) :
    Registers first.timer.entries number [dependency] first last := by
  obtain ⟨prodEntry, find, run⟩ := Library.bind_eq_ok.mp run
  obtain ⟨found, -⟩ := findEntryBySequenceNumber_ok numbered find
  have others : ∀ {p : Nat} {producer : RobEntry lastReg},
      first.timer.entries[p]? = some producer → p ∈ [dependency] →
        producer = prodEntry := by
    intro p producer foundProducer member
    rw [List.mem_singleton.mp member, found] at foundProducer
    cases foundProducer
    rfl
  split at run
  next isDone =>
    split at run
    next =>
      cases run
      refine ⟨rfl, ?_, ?_, le_max_left _ _, ?_, ?_⟩
      · intro p member
        exact ⟨prodEntry, List.mem_singleton.mp member ▸ found⟩
      · refine ⟨rfl, fun {place entry} foundEntry => ⟨entry, foundEntry, ?_⟩⟩
        unfold Registered
        by_cases waiting : entry.done = ⊤
        · have different : place ∉ [dependency] := by
            intro member
            rw [others foundEntry member] at waiting
            exact isDone waiting
          simp [List.count_eq_zero_of_not_mem different]
        · simp [waiting]
      · intro p member producer foundProducer _
        rw [others foundProducer member]
        exact le_max_right _ _
      · intro p producer foundProducer
        simp only [List.count_append]
        by_cases waiting : producer.done = ⊤
        · have different : p ∉ [dependency] := by
            intro member
            rw [others foundProducer member] at waiting
            exact isDone waiting
          rw [if_pos waiting, List.count_eq_zero_of_not_mem different]
        · rw [if_neg waiting]
    next => cases run
  next waits =>
    cases run
    have waiting : prodEntry.done = ⊤ := not_not.mp waits
    refine ⟨rfl, ?_, ?_, le_refl _, ?_, ?_⟩
    · intro p member
      exact ⟨prodEntry, List.mem_singleton.mp member ▸ found⟩
    · apply Library.Pointwise.set found
      · unfold Registered
        simp [waiting]
      · intro other entry different _
        unfold Registered
        have absent : other ∉ [dependency] := by
          simpa using different
        simp [List.count_eq_zero_of_not_mem absent]
    · intro p member producer foundProducer finished
      rw [others foundProducer member] at finished
      exact absurd waiting finished
    · intro p producer foundProducer
      by_cases member : p ∈ [dependency]
      · rw [others foundProducer member, if_pos waiting, Nat.add_zero]
      · simp [List.count_eq_zero_of_not_mem member]

end Registers

theorem registers_ok {number : Nat} {dependencies : List Nat}
    {first last : Registration lastReg Outside}
    (numbered : ∀ {n : Nat} {entry : RobEntry lastReg},
      first.timer.entries[n]? = some entry → entry.uop.sequenceNumber = n)
    (run : dependencies.foldlM (fun registration dependency =>
      registration.add number dependency) first = .ok last) :
    Registers first.timer.entries number dependencies first last := by
  induction dependencies generalizing first with
  | nil =>
      cases run
      refine ⟨rfl, by simp, ?_, le_refl _, by simp, by simp⟩
      refine ⟨rfl, fun {place entry} found => ⟨entry, found, ?_⟩⟩
      unfold Registered
      simp
  | cons dependency dependencies ih =>
      rw [List.foldlM_cons] at run
      obtain ⟨middle, head, tail⟩ := Library.bind_eq_ok.mp run
      have one := Registers.single numbered head
      have numberedMiddle : ∀ {n : Nat} {entry : RobEntry lastReg},
          middle.timer.entries[n]? = some entry →
            entry.uop.sequenceNumber = n := by
        intro n entry found
        obtain ⟨before, foundBefore, related⟩ := one.registered.backward found
        have same := numbered foundBefore
        unfold Registered at related
        rw [related]
        exact same
      exact one.trans (ih numberedMiddle tail)

/-! ## The new entry -/

theorem addAddressProducers_ok {lowest : Nat}
    {registers : List (Option (Fin lastReg))} {entry next : RobEntry lastReg}
    (numbered : ∀ {n : Nat} {entry : RobEntry lastReg},
      timer.entries[n]? = some entry → entry.uop.sequenceNumber = n)
    (run : timer.addAddressProducers lowest registers entry = .ok next) :
    ∃ producers addressReadyMax, next = { entry with
        addressProducers := entry.addressProducers ++ producers
        addressReadyMax := addressReadyMax } ∧
      ∀ p ∈ producers, p < timer.entries.length := by
  induction registers generalizing entry with
  | nil =>
      cases run
      exact ⟨[], _, by rw [List.append_nil], by simp⟩
  | cons register rest ih =>
      rw [addAddressProducers] at run
      split at run
      next => exact ih run
      next producer _ =>
        obtain ⟨prodEntry, find, run⟩ := Library.bind_eq_ok.mp run
        obtain ⟨found, -⟩ := findEntryBySequenceNumber_ok numbered find
        obtain ⟨known, -⟩ := List.getElem?_eq_some_iff.mp found
        split at run
        next =>
          obtain ⟨producers, _, rfl, later⟩ := ih run
          exact ⟨producers, _, rfl, later⟩
        next =>
          obtain ⟨producers, readyMax, rfl, later⟩ := ih run
          refine ⟨producer :: producers, readyMax, ?_, ?_⟩
          · rw [List.append_assoc, List.singleton_append]
          · intro p member
            cases List.mem_cons.mp member with
            | inl same => exact lt_of_eq_of_lt same known
            | inr others => exact later p others

theorem resolveAddress_ok {lowest : Nat} {entry next : RobEntry lastReg}
    (numbered : ∀ {n : Nat} {entry : RobEntry lastReg},
      timer.entries[n]? = some entry → entry.uop.sequenceNumber = n)
    (run : timer.resolveAddress lowest entry = .ok next) :
    ∃ producers addressReady addressReadyMax, next = { entry with
        addressProducers := entry.addressProducers ++ producers
        addressReady := addressReady
        addressReadyMax := addressReadyMax } ∧
      ∀ p ∈ producers, p < timer.entries.length := by
  unfold resolveAddress at run
  split at run
  next =>
    obtain ⟨middle, added, run⟩ := Library.bind_eq_ok.mp run
    obtain ⟨producers, _, rfl, known⟩ := addAddressProducers_ok numbered added
    split at run <;> cases run <;> exact ⟨producers, _, _, rfl, known⟩
  next =>
    cases run
    exact ⟨[], _, _, by rw [List.append_nil], by simp⟩

/-- The micro-operation that the tables are asked about. -/
def numberedUop (timer : RobTimer lastReg Outside)
    (uop : DynamicMicroOp lastReg) : DynamicMicroOp lastReg :=
  { uop with sequenceNumber := timer.nextSequenceNumber }

/-- What `insert` does. -/
structure Inserted (core : Core lastReg Outside)
    (timer next : RobTimer lastReg Outside) (uop : DynamicMicroOp lastReg)
    (tables : Dependencies lastReg) (tracked forwarded : DynamicMicroOp lastReg)
    (registered : List (RobEntry lastReg)) (new : RobEntry lastReg) : Prop where
  rest : next = { timer with
    entries := registered ++ [new]
    nextSequenceNumber := timer.nextSequenceNumber + 1
    registerDependencies := tables.registers
    memoryDependencies := tables.memory }
  track : timer.setDependencies (timer.numberedUop uop)
    timer.lowestValidSequenceNumber = .ok (tables, tracked)
  rangedTracked : tracked.Ranged
  forward : timer.forward core tracked = .ok forwarded
  found : ∀ p ∈ forwarded.dependencyList, ∃ producer : RobEntry lastReg,
    timer.entries[p]? = some producer
  pointwise : Library.Pointwise
    (Registered timer.nextSequenceNumber forwarded.dependencyList)
    timer.entries registered
  origin : new.origin = {
    microOp := uop.microOp
    sequenceNumber := timer.nextSequenceNumber
    address := uop.address }
  lowest : new.lowest = timer.lowestValidSequenceNumber
  dependants : new.dependants = []
  addresses : ∀ p ∈ new.addressProducers, p < timer.entries.length
  latency : new.uop.execLatency = uop.execLatency
  dispatched : new.dispatched = none
  issued : new.issued = ⊤
  done : new.done = ⊤
  ranged : new.uop.Ranged
  counts : ∀ (p : Nat) (producer : RobEntry lastReg),
    timer.entries[p]? = some producer →
    new.uop.dependencyList.count p =
      if producer.done = ⊤ then forwarded.dependencyList.count p else 0
  subset : ∀ p ∈ new.uop.dependencyList, p ∈ forwarded.dependencyList
  known : ∀ p ∈ forwarded.dependencyList, ∀ producer : RobEntry lastReg,
    timer.entries[p]? = some producer → producer.done ≠ ⊤ →
      producer.done ≤ new.readyMax
  ready : new.ready =
    if new.uop.dependencyList = [] then new.readyMax else ⊤

theorem descending_past {view : View lastReg} (base : Base view) :
    Dependencies.Descending view.past := by
  unfold View.past Dependencies.Descending
  rw [List.pairwise_reverse, List.pairwise_map, List.pairwise_iff_getElem]
  intro first second inFirst inSecond less
  have firstNumber := base.numbered (List.getElem?_eq_getElem inFirst)
  have secondNumber := base.numbered (List.getElem?_eq_getElem inSecond)
  change _ < view.entries[second].uop.sequenceNumber
  rw [secondNumber]
  exact lt_of_eq_of_lt firstNumber less

theorem track_ok (base : Base timer.view)
    {uop tracked : DynamicMicroOp lastReg} {tables : Dependencies lastReg}
    (run : timer.setDependencies (timer.numberedUop uop)
      timer.lowestValidSequenceNumber = .ok (tables, tracked)) :
    Extended (timer.numberedUop uop) tracked ∧
      tables.memory.producers =
        Dependencies.stores (timer.numberedUop uop :: timer.view.past)
          timer.popped ∧
      ∀ store, uop.microOp.isLoad = true →
        Dependencies.latest timer.view.past
          (Dependencies.storesTo uop.address) = some store →
        timer.popped ≤ store → store ∈ tracked.dependencyList := by
  obtain ⟨before, sliding, producers⟩ := base.stores
  rw [lowestValidSequenceNumber_eq base] at run
  have valid : timer.popped ≤ (timer.numberedUop uop).sequenceNumber :=
    le_of_le_of_eq base.popped base.next.symm
  exact setDependencies_ok (descending_past base) producers sliding valid run

/-- Forwarding keeps everything but the dependencies. -/
theorem forward_same (base : Base timer.view)
    {tracked forwarded : DynamicMicroOp lastReg}
    (number : tracked.sequenceNumber = timer.nextSequenceNumber)
    (fits : tracked.Fits) (run : timer.forward core tracked = .ok forwarded)
    (found : ∀ p ∈ forwarded.dependencyList, ∃ producer : RobEntry lastReg,
      timer.entries[p]? = some producer) :
    DynamicMicroOp.SameButDependencies tracked forwarded ∧
      tracked.Ranged ∧ forwarded.Ranged := by
  have inside : ∀ {p : Nat} {producer : RobEntry lastReg},
      timer.entries[p]? = some producer → p < tracked.sequenceNumber := by
    intro p producer foundProducer
    obtain ⟨below, -⟩ := List.getElem?_eq_some_iff.mp foundProducer
    rw [number]
    exact lt_of_lt_of_eq below base.next.symm
  cases forward_ok run with
  | inl same =>
      subst same
      have ranged : forwarded.Ranged := by
        apply DynamicMicroOp.ranged_of_head fits
        intro first head
        obtain ⟨producer, foundFirst⟩ :=
          found first (List.mem_of_mem_head? head)
        exact inside foundFirst
      exact ⟨rfl, ranged, ranged⟩
  | inr forwards =>
      obtain ⟨store, entry, removed, forwards, remove, add⟩ := forwards
      have ranged : tracked.Ranged := by
        apply DynamicMicroOp.ranged_of_head fits
        intro first head
        obtain ⟨producer, find⟩ := findStore_head forwards.first head
        exact inside (findEntryBySequenceNumber_ok base.numbered find).1
      obtain ⟨same, rangedRemoved, -, -⟩ :=
        DynamicMicroOp.removeDependency_ok ranged remove
      obtain ⟨sameAdded, intra, -⟩ := DynamicMicroOp.addDependencies_ok add
      exact ⟨same.trans sameAdded, ranged,
        (sameAdded.ranged_iff intra).mpr rangedRemoved⟩

theorem insert_ok (base : Base timer.view) {uop : DynamicMicroOp lastReg}
    (fits : uop.Fits) {next : RobTimer lastReg Outside}
    (run : timer.insert core uop = .ok next) :
    ∃ tables tracked forwarded registered new,
      Inserted core timer next uop tables tracked forwarded registered new := by
  unfold insert at run
  split at run
  next =>
    obtain ⟨entry, resolve, run⟩ := Library.bind_eq_ok.mp run
    obtain ⟨_, _, _, isEntry, addresses⟩ :=
      resolveAddress_ok base.numbered resolve
    have isUop : entry.uop = timer.numberedUop uop := by
      rw [isEntry]
      rfl
    simp only [isUop] at run
    obtain ⟨⟨tables, tracked⟩, track, run⟩ := Library.bind_eq_ok.mp run
    obtain ⟨forwarded, forward, run⟩ := Library.bind_eq_ok.mp run
    obtain ⟨registration, register, run⟩ := Library.bind_eq_ok.mp run
    obtain ⟨last, remove, run⟩ := Library.bind_eq_ok.mp run
    cases run
    have registers := registers_ok base.numbered register
    have extended := (track_ok base track).1
    have fitsTracked : tracked.Fits := by
      unfold DynamicMicroOp.Fits
      rw [extended.same.microOpTypeOffset, extended.intra]
      exact fits
    obtain ⟨sameForward, rangedTracked, rangedForward⟩ := forward_same base
      extended.same.sequenceNumber fitsTracked forward registers.found
    obtain ⟨sameLast, rangedLast, counts⟩ :=
      DynamicMicroOp.removeDependencies_ok rangedForward remove
    have same := (extended.same.trans sameForward).trans sameLast
    have remains : ∀ (p : Nat) (producer : RobEntry lastReg),
        timer.entries[p]? = some producer →
        last.dependencyList.count p =
          if producer.done = ⊤ then forwarded.dependencyList.count p else 0 := by
      intro p producer foundProducer
      rw [counts, registers.toRemove p producer foundProducer]
      split
      next => rfl
      next =>
        rw [List.count_nil, Nat.zero_add, Nat.sub_self]
    have complete : entry.complete last registration.readyMax = { entry with
        uop := last
        readyMax := registration.readyMax
        ready := if last.dependencyList = [] then registration.readyMax
          else entry.ready } :=
      settle_eq _
    refine ⟨tables, tracked, forwarded, registration.timer.entries,
      entry.complete last registration.readyMax, ?_⟩
    constructor
    case rest =>
      rw [registers.timer]
    case track => exact track
    case rangedTracked => exact rangedTracked
    case forward => exact forward
    case found => exact registers.found
    case pointwise => exact registers.registered
    all_goals rw [complete]
    case origin =>
      unfold RobEntry.origin
      rw [same.microOp, same.sequenceNumber, same.address]
      rfl
    case lowest => rw [isEntry]; rfl
    case dependants => rw [isEntry]; rfl
    case addresses => rw [isEntry]; exact addresses
    case latency => exact same.execLatency
    case dispatched => rw [isEntry]; rfl
    case issued => rw [isEntry]; rfl
    case done => rw [isEntry]; rfl
    case ranged => exact rangedLast
    case counts => exact remains
    case subset =>
      intro p member
      have positive := List.count_pos_iff.mpr member
      have count := counts p
      change 0 < last.dependencyList.count p at positive
      exact List.count_pos_iff.mp (by omega)
    case known => exact registers.known
    case ready => rw [isEntry]; rfl
  next => cases run

theorem Registered.eq {number place : Nat} {dependencies : List Nat}
    {before after : RobEntry lastReg}
    (registered : Registered number dependencies place before after) :
    ∃ dependants, after = { before with dependants := dependants } :=
  ⟨_, registered⟩

namespace Inserted

variable {uop : DynamicMicroOp lastReg} {next : RobTimer lastReg Outside}
  {tables : Dependencies lastReg} {tracked forwarded : DynamicMicroOp lastReg}
  {registered : List (RobEntry lastReg)} {new : RobEntry lastReg}

theorem view (inserted : Inserted core timer next uop tables tracked forwarded
      registered new) :
    next.view = { timer.view with
      entries := registered ++ [new]
      nextSequenceNumber := timer.nextSequenceNumber + 1
      producers := tables.memory.producers } := by
  rw [inserted.rest]
  rfl

theorem length (base : Base timer.view)
    (inserted : Inserted core timer next uop tables tracked forwarded
      registered new) : registered.length = timer.nextSequenceNumber :=
  inserted.pointwise.length.trans base.next.symm

/-- An entry is an old one, or the new one. -/
theorem cases_entry (base : Base timer.view)
    (inserted : Inserted core timer next uop tables tracked forwarded
      registered new) {n : Nat} {entry : RobEntry lastReg}
    (found : next.view.entries[n]? = some entry) :
    (n < timer.nextSequenceNumber ∧ ∃ before dependants,
        timer.entries[n]? = some before ∧
          entry = { before with dependants := dependants }) ∨
      (n = timer.nextSequenceNumber ∧ entry = new) := by
  rw [inserted.view] at found
  change (registered ++ [new])[n]? = some entry at found
  have length := inserted.length base
  by_cases old : n < timer.nextSequenceNumber
  · rw [List.getElem?_append_left (by omega)] at found
    obtain ⟨before, foundBefore, related⟩ := inserted.pointwise.backward found
    obtain ⟨dependants, same⟩ := related.eq
    exact Or.inl ⟨old, before, dependants, foundBefore, same⟩
  · rw [List.getElem?_append_right (by omega)] at found
    obtain ⟨isFirst, same⟩ := List.getElem?_eq_some_iff.mp found
    rw [List.length_singleton] at isFirst
    refine Or.inr ⟨by omega, ?_⟩
    rw [List.getElem_singleton] at same
    exact same.symm

theorem old_entry (inserted : Inserted core timer next uop tables tracked
      forwarded registered new) {n : Nat} {before : RobEntry lastReg}
    (found : timer.entries[n]? = some before) :
    next.view.entries[n]? = some { before with
      dependants := before.dependants ++ List.replicate
        (if before.done = ⊤ then forwarded.dependencyList.count n else 0)
        timer.nextSequenceNumber } := by
  obtain ⟨after, foundAfter, related⟩ := inserted.pointwise.forward found
  obtain ⟨inside, -⟩ := List.getElem?_eq_some_iff.mp foundAfter
  unfold Registered at related
  rw [inserted.view, ← related]
  exact (List.getElem?_append_left inside).trans foundAfter

/-- The dependants of an old entry. -/
theorem dependants_eq (inserted : Inserted core timer next uop tables tracked
      forwarded registered new) {n : Nat} {before after : RobEntry lastReg}
    (found : timer.entries[n]? = some before)
    (foundAfter : next.view.entries[n]? = some after) :
    after.dependants = before.dependants ++ List.replicate
      (if before.done = ⊤ then forwarded.dependencyList.count n else 0)
      timer.nextSequenceNumber := by
  rw [inserted.old_entry found] at foundAfter
  cases foundAfter
  rfl

theorem below (base : Base timer.view)
    (inserted : Inserted core timer next uop tables tracked forwarded
      registered new) {p : Nat} (member : p ∈ new.uop.dependencyList) :
    p < timer.nextSequenceNumber := by
  obtain ⟨producer, found⟩ := inserted.found p (inserted.subset p member)
  obtain ⟨inside, -⟩ := List.getElem?_eq_some_iff.mp found
  exact lt_of_lt_of_eq inside base.next.symm

theorem listed (base : Base timer.view)
    (inserted : Inserted core timer next uop tables tracked forwarded
      registered new) {p l : Nat} {producer entry : RobEntry lastReg}
    (foundProducer : next.view.entries[p]? = some producer)
    (foundEntry : next.view.entries[l]? = some entry)
    (waiting : producer.done = ⊤) :
    producer.dependants.count l = entry.uop.dependencyList.count p := by
  cases inserted.cases_entry base foundProducer with
  | inl oldProducer =>
      obtain ⟨inside, before, dependants, foundBefore, rfl⟩ := oldProducer
      have waitingBefore : before.done = ⊤ := waiting
      rw [inserted.dependants_eq foundBefore foundProducer, if_pos waitingBefore,
        List.count_append, List.count_replicate]
      cases inserted.cases_entry base foundEntry with
      | inl oldEntry =>
          obtain ⟨insideEntry, entryBefore, _, foundEntryBefore, rfl⟩ := oldEntry
          rw [if_neg (by simp; omega), Nat.add_zero]
          have same := base.listed foundBefore foundEntryBefore waitingBefore
          exact same
      | inr newEntry =>
          obtain ⟨rfl, rfl⟩ := newEntry
          have absent : timer.nextSequenceNumber ∉ before.dependants := by
            intro member
            have less := base.known foundBefore _ member
            exact absurd base.next (Nat.ne_of_lt less)
          rw [List.count_eq_zero_of_not_mem absent, Nat.zero_add,
            if_pos (beq_self_eq_true _), inserted.counts p before foundBefore,
            if_pos waitingBefore]
  | inr newProducer =>
      obtain ⟨rfl, rfl⟩ := newProducer
      rw [inserted.dependants, List.count_nil]
      symm
      apply List.count_eq_zero_of_not_mem
      intro member
      cases inserted.cases_entry base foundEntry with
      | inl oldEntry =>
          obtain ⟨insideEntry, entryBefore, _, foundEntryBefore, rfl⟩ := oldEntry
          obtain ⟨own, foundOwn, -⟩ := base.pending foundEntryBefore _ member
          obtain ⟨inside, -⟩ := List.getElem?_eq_some_iff.mp foundOwn
          exact absurd base.next (Nat.ne_of_lt inside)
      | inr newEntry =>
          obtain ⟨-, rfl⟩ := newEntry
          exact absurd (inserted.below base member) (Nat.lt_irrefl _)

theorem pending (base : Base timer.view)
    (inserted : Inserted core timer next uop tables tracked forwarded
      registered new) {l p : Nat} {entry : RobEntry lastReg}
    (found : next.view.entries[l]? = some entry)
    (member : p ∈ entry.uop.dependencyList) :
    ∃ producer, next.view.entries[p]? = some producer ∧ producer.done = ⊤ := by
  cases inserted.cases_entry base found with
  | inl oldEntry =>
      obtain ⟨-, before, _, foundBefore, rfl⟩ := oldEntry
      obtain ⟨producer, foundProducer, waiting⟩ :=
        base.pending foundBefore p member
      exact ⟨_, inserted.old_entry foundProducer, waiting⟩
  | inr newEntry =>
      obtain ⟨-, rfl⟩ := newEntry
      obtain ⟨producer, foundProducer⟩ :=
        inserted.found p (inserted.subset p member)
      have positive := List.count_pos_iff.mpr member
      rw [inserted.counts p producer foundProducer] at positive
      refine ⟨_, inserted.old_entry foundProducer, ?_⟩
      by_contra finished
      rw [if_neg finished] at positive
      exact absurd positive (Nat.lt_irrefl 0)

theorem past_eq (inserted : Inserted core timer next uop tables tracked
      forwarded registered new) :
    next.view.past = new.origin :: timer.view.past := by
  have same : registered.map RobEntry.origin =
      timer.entries.map RobEntry.origin := by
    apply inserted.pointwise.map_eq
    intro place before after related
    obtain ⟨_, rfl⟩ := related.eq
    rfl
  rw [inserted.view]
  unfold View.past
  simp only [List.map_append, List.map_singleton, same]
  exact List.reverse_concat

theorem base (base : Base timer.view)
    (inserted : Inserted core timer next uop tables tracked forwarded
      registered new) : Base next.view := by
  have length : next.view.entries.length = timer.nextSequenceNumber + 1 := by
    rw [inserted.view]
    change (registered ++ [new]).length = _
    rw [List.length_append, inserted.length base, List.length_singleton]
  have samePopped : next.view.popped = timer.popped := by
    rw [inserted.view]
    rfl
  have popped : timer.popped ≤ timer.nextSequenceNumber :=
    le_of_le_of_eq base.popped base.next.symm
  constructor
  case numbered =>
    intro n entry found
    cases inserted.cases_entry base found with
    | inl oldEntry =>
        obtain ⟨-, before, _, foundBefore, rfl⟩ := oldEntry
        have same := base.numbered foundBefore
        exact same
    | inr newEntry =>
        obtain ⟨rfl, rfl⟩ := newEntry
        exact congrArg DynamicMicroOp.sequenceNumber inserted.origin
  case next =>
    rw [length, inserted.view]
  case popped =>
    rw [length, samePopped]
    omega
  case sound =>
    intro n entry found
    cases inserted.cases_entry base found with
    | inl oldEntry =>
        obtain ⟨-, before, _, foundBefore, rfl⟩ := oldEntry
        have sound := base.sound foundBefore
        rw [inserted.view]
        exact ⟨sound.ranged, sound.waiting, sound.ready, sound.finished⟩
    | inr newEntry =>
        obtain ⟨-, rfl⟩ := newEntry
        refine ⟨inserted.ranged, ?_, ?_, ?_⟩
        · intro rest
          rw [inserted.ready, if_neg rest]
        · intro empty
          rw [inserted.ready, if_pos empty]
        · exact fun finished => absurd inserted.done finished
  case listed => exact inserted.listed base
  case known =>
    intro p producer found l member
    rw [length]
    cases inserted.cases_entry base found with
    | inl oldEntry =>
        obtain ⟨-, before, _, foundBefore, rfl⟩ := oldEntry
        rw [inserted.dependants_eq foundBefore found] at member
        cases List.mem_append.mp member with
        | inl old =>
            have less := base.known foundBefore l old
            exact Nat.lt_succ_of_lt (lt_of_lt_of_eq less base.next.symm)
        | inr own =>
            rw [List.eq_of_mem_replicate own]
            exact Nat.lt_succ_self _
    | inr newEntry =>
        obtain ⟨-, rfl⟩ := newEntry
        rw [inserted.dependants] at member
        cases member
  case pending =>
    intro l entry found p member
    exact inserted.pending base found member
  case undispatched =>
    intro n entry found behind
    have sameNumber : next.view.numInRob = timer.numInRob := by
      rw [inserted.view]
      rfl
    rw [samePopped, sameNumber] at behind
    cases inserted.cases_entry base found with
    | inl oldEntry =>
        obtain ⟨-, before, _, foundBefore, rfl⟩ := oldEntry
        have waiting := base.undispatched foundBefore behind
        exact waiting
    | inr newEntry =>
        obtain ⟨-, rfl⟩ := newEntry
        exact ⟨inserted.done, inserted.dispatched⟩
  case stores =>
    obtain ⟨-, producers, -⟩ := track_ok base inserted.track
    refine ⟨timer.popped, samePopped.ge, ?_⟩
    rw [inserted.past_eq, Dependencies.stores_cons _ _
      (by rw [inserted.origin]; exact popped), inserted.origin]
    rw [Dependencies.stores_cons _ _ (by exact popped)] at producers
    rw [inserted.view]
    exact producers

end Inserted

end RobTimer

end ChipletSniper.Rob
