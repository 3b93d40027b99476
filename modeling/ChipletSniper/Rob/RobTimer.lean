import Mathlib.Algebra.Order.Monoid.Unbundled.WithTop
import Mathlib.Algebra.Order.Ring.Nat
import ChipletSniper.Rob.Dependencies

/-!
# The timer of the reorder buffer

`simulate` adds micro-operations to the queue and then runs cycles, or jumps
over idle ones, until the queue is too short to go on.  A cycle dispatches,
issues and commits.  A micro-operation that is issued tells the later ones
that wait for it when its result is available.

`MaxTime` is `⊤`, and a time that is never `MaxTime` is a number.  The queue
keeps what it has popped in front of what it holds, so that the place of an
entry is its sequence number.
-/

namespace ChipletSniper.Rob

/-- `SubsecondTime`, with `MaxTime` for `⊤`. -/
abbrev SubsecondTime := WithTop Nat

/-- `SubsecondTime::divideRounded`. -/
def divideRounded (time period : Nat) : Nat := (time + (period / 2 + 1)) / period

/-! ## The load and the store queue -/

/-- `ContentionModel`: for every unit the time at which it becomes free, and
its tag. -/
structure ContentionModel where
  time : List (Nat × Nat)
  last : Nat
  deriving DecidableEq, Repr

namespace ContentionModel

def start (numOutstanding : Nat) : ContentionModel :=
  ⟨List.replicate numOutstanding (0, 0), 0⟩

/-- The default of the tag is the largest number of 64 bits. -/
def hasFreeSlot (queue : ContentionModel) (tStart : Nat)
    (tag : Nat := 2 ^ 64 - 1) : Bool :=
  queue.time.any fun unit => decide (unit.1 ≤ tStart) || unit.2 == tag

/-- The loop for the first free entry. -/
def findUnit (time : List (Nat × Nat)) (tStart : Nat) : Nat → Nat → Nat → Nat
  | 0, _, unit => unit
  | remaining + 1, i, unit =>
      if (time.getD i (0, 0)).1 ≤ tStart then i
      else if (time.getD i (0, 0)).1 < (time.getD unit (0, 0)).1 then
        findUnit time tStart remaining (i + 1) i
      else
        findUnit time tStart remaining (i + 1) unit

def getCompletionTime (queue : ContentionModel) (tStart tDelay tag : Nat) :
    Nat × ContentionModel :=
  if queue.time.length = 0 then (tStart + tDelay, queue)
  else if tStart = 0 then (tDelay, queue)
  else if tStart < queue.last then (tStart + tDelay, queue)
  else
    let unit := findUnit queue.time tStart queue.time.length 0 0
    let free := (queue.time.getD unit (0, 0)).1
    let tBegin := if tStart < free then free else tStart
    (tBegin + tDelay,
      ⟨queue.time.set unit (tBegin + tDelay, tag), tStart⟩)

end ContentionModel

/-! ## The core -/

variable {lastReg : Nat} {Outside : Type}

/-- `RobContention`, over what lies outside of the timer. -/
structure RobContention (lastReg : Nat) (Outside : Type) where
  initCycle : Outside → Nat → Outside
  tryIssue : Outside → DynamicMicroOp lastReg → Bool × Outside
  noMore : Outside → Bool
  doIssue : Outside → DynamicMicroOp lastReg → Outside

/-- The configuration of the timer, and what it calls. -/
structure Core (lastReg : Nat) (Outside : Type) where
  dispatchWidth : Nat
  commitWidth : Nat
  windowSize : Nat
  rsEntries : Nat
  mispredictionPenalty : Nat
  storeToLoadForwarding : Bool
  noAddressDisambiguation : Bool
  inorder : Bool
  outstandingLoads : Nat
  outstandingStores : Nat
  period : Nat
  /-- The latency of an access at a time. -/
  accessMemory : Outside → DynamicMicroOp lastReg → Nat → Nat × Outside
  robContention : Option (RobContention lastReg Outside)

/-- `RobTimer::RobEntry`. The dependants are given by their numbers. -/
structure RobEntry (lastReg : Nat) where
  uop : DynamicMicroOp lastReg
  dependants : List Nat := []
  addressProducers : List Nat := []
  dispatched : Option Nat := none
  ready : SubsecondTime := ⊤
  readyMax : SubsecondTime := 0
  addressReady : SubsecondTime := ⊤
  addressReadyMax : SubsecondTime := 0
  issued : SubsecondTime := ⊤
  done : SubsecondTime := ⊤
  /-- The oldest number in the queue when the entry was added. The source does
  not keep it. -/
  lowest : Nat := 0
  deriving DecidableEq

/-- `RobEntry::init`. -/
def RobEntry.init (uop : DynamicMicroOp lastReg) (sequenceNumber lowest : Nat) :
    RobEntry lastReg where
  uop := { uop with sequenceNumber := sequenceNumber }
  lowest := lowest

structure RobTimer (lastReg : Nat) (Outside : Type) where
  /-- What was popped from the queue, and then what it holds. -/
  entries : List (RobEntry lastReg)
  popped : Nat
  numInRob : Nat
  rsEntriesUsed : Nat
  now : Nat
  frontendStalledUntil : SubsecondTime
  inIcacheMiss : Bool
  lastStoreDone : Nat
  loadQueue : ContentionModel
  storeQueue : ContentionModel
  nextSequenceNumber : Nat
  registerDependencies : RegisterDependencies lastReg
  memoryDependencies : MemoryDependencies
  outside : Outside

namespace RobTimer

/-- The constructor. -/
def start (core : Core lastReg Outside) (outside : Outside) :
    RobTimer lastReg Outside where
  entries := []
  popped := 0
  numInRob := 0
  rsEntriesUsed := 0
  now := 0
  frontendStalledUntil := 0
  inIcacheMiss := false
  lastStoreDone := 0
  loadQueue := ContentionModel.start core.outstandingLoads
  storeQueue := ContentionModel.start core.outstandingStores
  nextSequenceNumber := 0
  registerDependencies := RegisterDependencies.start
  memoryDependencies := MemoryDependencies.start
  outside := outside

variable (timer : RobTimer lastReg Outside)

/-- `rob.size()`. -/
def size : Nat := timer.entries.length - timer.popped

/-- `rob.at`. -/
def entryAt (idx : Nat) : Option (RobEntry lastReg) :=
  timer.entries[timer.popped + idx]?

/-- What is written to an entry. -/
def update (number : Nat) (entry : RobEntry lastReg) :
    RobTimer lastReg Outside :=
  { timer with entries := timer.entries.set number entry }

def findEntryBySequenceNumber (sequenceNumber : Nat) :
    Except Failure (RobEntry lastReg) :=
  match timer.entryAt 0 with
  | none => .error .outsideOfRob
  | some first =>
      -- The position of a smaller number wraps around.
      if sequenceNumber < first.uop.sequenceNumber then .error .outsideOfRob
      else
        match timer.entryAt (sequenceNumber - first.uop.sequenceNumber) with
        | none => .error .outsideOfRob
        | some entry =>
            if entry.uop.sequenceNumber = sequenceNumber then .ok entry
            else .error .outsideOfRob

/-! ## Adding a micro-operation -/

/-- `lowestValidSequenceNumber`: the front of the queue, which is the new entry
if the queue was empty. -/
def lowestValidSequenceNumber : Nat :=
  match timer.entryAt 0 with
  | none => timer.nextSequenceNumber
  | some first => first.uop.sequenceNumber

/-- The loop over the address registers of a store. -/
def addAddressProducers (lowest : Nat) :
    List (Option (Fin lastReg)) → RobEntry lastReg →
      Except Failure (RobEntry lastReg)
  | [], entry => .ok entry
  | register :: rest, entry =>
      match timer.registerDependencies.peekProducer register lowest with
      | none => addAddressProducers lowest rest entry
      | some producer => do
          let prodEntry ← timer.findEntryBySequenceNumber producer
          if prodEntry.done ≠ ⊤ then
            addAddressProducers lowest rest { entry with
              addressReadyMax := max entry.addressReadyMax prodEntry.done }
          else
            addAddressProducers lowest rest { entry with
              addressProducers := entry.addressProducers ++ [producer] }

/-- The address of a store. -/
def resolveAddress (lowest : Nat) (entry : RobEntry lastReg) :
    Except Failure (RobEntry lastReg) :=
  if entry.uop.microOp.isStore then do
    let entry ←
      timer.addAddressProducers lowest entry.uop.microOp.addressRegisters entry
    if entry.addressProducers.length = 0 then
      return { entry with addressReady := entry.addressReadyMax }
    else
      return entry
  else
    return entry

/-- The first dependency on a store. -/
def findStore : List Nat → Except Failure (Option (Nat × RobEntry lastReg))
  | [] => .ok none
  | dependency :: rest => do
      let prodEntry ← timer.findEntryBySequenceNumber dependency
      if prodEntry.uop.microOp.isStore then
        return some (dependency, prodEntry)
      else
        findStore rest

/-- A load depends on the producers of a store instead of the store. -/
def forwardStore (uop : DynamicMicroOp lastReg) :
    Except Failure (DynamicMicroOp lastReg) := do
  match ← timer.findStore uop.dependencyList with
  | none => return uop
  | some (dependency, prodEntry) =>
      let uop ← uop.removeDependency dependency
      prodEntry.uop.dependencyList.foldlM
        (fun uop dependency => uop.addDependency dependency) uop

/-- Forwarding, if it is enabled, for a load. -/
def forward (core : Core lastReg Outside) (uop : DynamicMicroOp lastReg) :
    Except Failure (DynamicMicroOp lastReg) :=
  if core.storeToLoadForwarding && uop.microOp.isLoad then
    timer.forwardStore uop
  else
    .ok uop

/-- The room of `deps_to_remove`. -/
def depsToRemove : Nat := 8

end RobTimer

/-- What the loop over the dependencies of a new entry changes. -/
structure Registration (lastReg : Nat) (Outside : Type) where
  timer : RobTimer lastReg Outside
  readyMax : SubsecondTime
  toRemove : List Nat

/-- The loop body for one dependency of the entry with the number. -/
def Registration.add (registration : Registration lastReg Outside)
    (number dependency : Nat) :
    Except Failure (Registration lastReg Outside) := do
  let prodEntry ←
    registration.timer.findEntryBySequenceNumber dependency
  if prodEntry.done ≠ ⊤ then
    -- The array is written before its length is checked.
    if registration.toRemove.length < RobTimer.depsToRemove then
      return { registration with
        readyMax := max registration.readyMax prodEntry.done
        toRemove := registration.toRemove ++ [dependency] }
    else
      throw .asserted
  else
    return { registration with
      timer := registration.timer.update dependency
        { prodEntry with dependants := prodEntry.dependants ++ [number] } }

/-- An entry without dependencies is ready. -/
def RobEntry.settle (entry : RobEntry lastReg) : RobEntry lastReg :=
  if entry.uop.getDependenciesLength = 0 then
    { entry with ready := entry.readyMax }
  else
    entry

/-- The entry with the dependencies that are left, and the latest time of the
others. -/
def RobEntry.complete (entry : RobEntry lastReg) (uop : DynamicMicroOp lastReg)
    (readyMax : SubsecondTime) : RobEntry lastReg :=
  { entry with uop := uop, readyMax := readyMax }.settle

namespace RobTimer

variable (core : Core lastReg Outside) (timer : RobTimer lastReg Outside)

/-- The dependencies of a new micro-operation. -/
def setDependencies (uop : DynamicMicroOp lastReg) (lowest : Nat) :
    Except Failure (Dependencies lastReg × DynamicMicroOp lastReg) :=
  Dependencies.setDependencies
    ⟨timer.registerDependencies, timer.memoryDependencies⟩ ⟨uop, lowest⟩

/-- The loop of `simulate` for a micro-operation that is not squashed. No
micro-operation depends on itself, so entries are looked for among the earlier
ones. -/
def insert (uop : DynamicMicroOp lastReg) :
    Except Failure (RobTimer lastReg Outside) :=
  if timer.size < core.windowSize + 255 then do
    let number := timer.nextSequenceNumber
    let lowest := timer.lowestValidSequenceNumber
    let entry ← timer.resolveAddress lowest (RobEntry.init uop number lowest)
    let (tables, uop) ← timer.setDependencies entry.uop lowest
    let uop ← timer.forward core uop
    let registration ← uop.dependencyList.foldlM
      (fun registration dependency => registration.add number dependency)
      (⟨timer, entry.readyMax, []⟩ : Registration lastReg Outside)
    let uop ← registration.toRemove.foldlM
      (fun uop dependency => uop.removeDependency dependency) uop
    let entry := entry.complete uop registration.readyMax
    return { registration.timer with
      entries := registration.timer.entries ++ [entry]
      nextSequenceNumber := number + 1
      registerDependencies := tables.registers
      memoryDependencies := tables.memory }
  else
    .error .queueFull

/-! ## Dispatch -/

/-- An entry that is dispatched. -/
def dispatchEntry (entry : RobEntry lastReg) : RobTimer lastReg Outside :=
  { timer.update (timer.popped + timer.numInRob) { entry with
      dispatched := some timer.now
      ready := max entry.ready ((timer.now + core.period : Nat) : SubsecondTime) }
    with
    numInRob := timer.numInRob + 1
    rsEntriesUsed := timer.rsEntriesUsed + 1 }

/-- The loop of `doDispatch`, with the places that are left in the window. -/
def dispatchLoop : Nat → Nat → SubsecondTime → RobTimer lastReg Outside →
    Except Failure (SubsecondTime × RobTimer lastReg Outside)
  | 0, _, nextEvent, timer => .ok (nextEvent, timer)
  | remaining + 1, uopsDispatched, nextEvent, timer =>
      match timer.entryAt timer.numInRob with
      | none => .error .asserted
      | some entry =>
          if uopsDispatched = core.dispatchWidth then .ok (nextEvent, timer)
          else if entry.uop.iCacheMiss && !timer.inIcacheMiss then
            .ok (nextEvent, { timer with
              frontendStalledUntil :=
                ((timer.now + entry.uop.iCacheLatency * core.period : Nat) :
                  SubsecondTime)
              inIcacheMiss := true })
          else
            let timer := if entry.uop.iCacheMiss then
              { timer with inIcacheMiss := false } else timer
            if timer.rsEntriesUsed = core.rsEntries then .ok (nextEvent, timer)
            else
              let nextEvent := min nextEvent (max entry.ready
                ((timer.now + core.period : Nat) : SubsecondTime))
              let timer := timer.dispatchEntry core entry
              if entry.uop.microOp.branch && entry.uop.branchMispredicted then
                .ok (nextEvent, { timer with frontendStalledUntil := ⊤ })
              else
                dispatchLoop remaining (uopsDispatched + 1) nextEvent timer

/-- The part of `doDispatch` that a stall of the front end skips. -/
def dispatchUnlessStalled :
    Except Failure (SubsecondTime × RobTimer lastReg Outside) :=
  if timer.frontendStalledUntil ≤ timer.now then
    dispatchLoop core (core.windowSize - timer.numInRob) 0 ⊤ timer
  else
    .ok (⊤, timer)

/-- `doDispatch`, with the next event. -/
def doDispatch :
    Except Failure (SubsecondTime × RobTimer lastReg Outside) := do
  let (nextEvent, timer) ← timer.dispatchUnlessStalled core
  if timer.numInRob = core.windowSize then
    return (nextEvent, timer)
  else
    return (min timer.frontendStalledUntil nextEvent, timer)

/-! ## Issue -/

/-- The loop over the address producers of a store when the entry with the
number has been issued: the time of its address, and whether it is known. -/
def findAddress (number cycleDepend : Nat) :
    List Nat → SubsecondTime → Bool → Except Failure (SubsecondTime × Bool)
  | [], addressReadyMax, ready => .ok (addressReadyMax, ready)
  | producer :: rest, addressReadyMax, ready =>
      if timer.lowestValidSequenceNumber ≤ producer then do
        let prodEntry ← timer.findEntryBySequenceNumber producer
        findAddress number cycleDepend rest
          (if producer = number then
            max addressReadyMax (cycleDepend : SubsecondTime)
          else addressReadyMax)
          (ready && decide (prodEntry.done ≠ ⊤))
      else
        findAddress number cycleDepend rest addressReadyMax ready

/-- The address of a store that depends on the entry with the number. -/
def wakeAddress (number cycleDepend : Nat) (depEntry : RobEntry lastReg) :
    Except Failure (RobEntry lastReg) :=
  if depEntry.uop.microOp.isStore ∧ depEntry.addressReady = ⊤ then do
    let (addressReadyMax, ready) ← timer.findAddress number cycleDepend
      depEntry.addressProducers depEntry.addressReadyMax true
    return { depEntry with
      addressReadyMax := addressReadyMax
      addressReady := if ready then addressReadyMax else depEntry.addressReady }
  else
    return depEntry

/-- The loop body for one dependant of the entry with the number. -/
def wake (number cycleDepend dependant : Nat) :
    Except Failure (RobTimer lastReg Outside) :=
  match timer.entries[dependant]? with
  | none => .error .asserted
  | some depEntry =>
      if depEntry.uop.getDependenciesLength = 0 then .error .asserted
      else do
        let uop ← depEntry.uop.removeDependency number
        let depEntry : RobEntry lastReg := { depEntry with
          uop := uop
          readyMax := max depEntry.readyMax (cycleDepend : SubsecondTime) }
        let depEntry ←
          timer.wakeAddress number cycleDepend depEntry.settle
        return timer.update dependant depEntry

/-- The access of a load or a store, unless its latency is known. -/
def access (uop : DynamicMicroOp lastReg) :
    DynamicMicroOp lastReg × RobTimer lastReg Outside :=
  if (uop.microOp.isLoad || uop.microOp.isStore) && !uop.dCacheKnown then
    let (latency, outside) := core.accessMemory timer.outside uop timer.now
    ({ uop with
        execLatency := uop.execLatency + divideRounded latency core.period
        dCacheKnown := true },
      { timer with outside := outside })
  else
    (uop, timer)

/-- The queue of a load or of a store takes it. -/
def enqueue (uop : DynamicMicroOp lastReg) : RobTimer lastReg Outside :=
  if uop.microOp.isLoad then
    { timer with loadQueue := (timer.loadQueue.getCompletionTime timer.now
        (uop.execLatency * core.period) uop.address).2 }
  else if uop.microOp.isStore then
    { timer with storeQueue := (timer.storeQueue.getCompletionTime timer.now
        (uop.execLatency * core.period) uop.address).2 }
  else
    timer

end RobTimer

/-- The cycles after which dependants may use a result: a store forwards it
immediately. -/
def DynamicMicroOp.resultLatency (uop : DynamicMicroOp lastReg) : Nat :=
  if uop.microOp.isStore then 1 else uop.execLatency

namespace RobTimer

variable (core : Core lastReg Outside) (timer : RobTimer lastReg Outside)

/-- The contention model learns what is issued. -/
def takePort (uop : DynamicMicroOp lastReg) : RobTimer lastReg Outside :=
  match core.robContention with
  | none => timer
  | some contention =>
      { timer with outside := contention.doIssue timer.outside uop }

/-- The front end refills after a mispredicted branch. -/
def resolveBranch (uop : DynamicMicroOp lastReg) : RobTimer lastReg Outside :=
  if uop.microOp.branch && uop.branchMispredicted then
    { timer with frontendStalledUntil := ((timer.now +
        (core.mispredictionPenalty - 2) * core.period : Nat) : SubsecondTime) }
  else
    timer

/-- `last_store_done`. -/
def recordStore (uop : DynamicMicroOp lastReg) (executed : Nat) :
    RobTimer lastReg Outside :=
  if uop.microOp.isStore then
    { timer with lastStoreDone := max timer.lastStoreDone executed }
  else
    timer

/-- What is written to the entry with the number. -/
def writeIssue (number done : Nat) (entry : RobEntry lastReg)
    (uop : DynamicMicroOp lastReg) : RobTimer lastReg Outside :=
  { timer.update number { entry with
      uop := uop
      issued := (timer.now : SubsecondTime)
      done := (done : SubsecondTime) } with
    rsEntriesUsed := timer.rsEntriesUsed - 1 }

/-- `issueInstruction` for the entry at a place of the queue, with the time at
which it is done. -/
def issueInstruction (idx : Nat) (entry : RobEntry lastReg) :
    Except Failure (SubsecondTime × RobTimer lastReg Outside) :=
  let (uop, accessed) := timer.access core entry.uop
  let cycleDepend := timer.now + uop.resultLatency * core.period
  let executed := timer.now + uop.execLatency * core.period + core.period
  let cycleDone :=
    if uop.microOp.isStore then timer.now + core.period else executed
  if uop.microOp.isStore ∧ ¬ entry.addressReady ≤ entry.ready then
    .error .asserted
  else do
    let queued := (accessed.enqueue core uop).recordStore uop executed
    let written := (queued.takePort core uop).writeIssue (timer.popped + idx)
      cycleDone entry uop
    let told ← entry.dependants.foldlM (fun told dependant =>
      told.wake (timer.popped + idx) cycleDepend dependant) written
    return ((cycleDone : SubsecondTime), told.resolveBranch core uop)

end RobTimer

/-- What `doIssue` carries from one entry to the next. -/
structure IssueScan where
  numIssued : Nat := 0
  nextEvent : SubsecondTime := ⊤
  headOfQueue : Bool := true
  noMoreLoad : Bool := false
  noMoreStore : Bool := false
  haveUnresolvedStore : Bool := false
  deriving DecidableEq

/-- What the conditions for issue decide about an entry. -/
inductive Decision where
  | issue
  | wait
  /-- A barrier that waits keeps the memory operations after it. -/
  | waitBarrier
  /-- A serializing micro-operation that waits ends the loop. -/
  | stop
  deriving DecidableEq, Repr

namespace RobTimer

variable (core : Core lastReg Outside) (timer : RobTimer lastReg Outside)

def decideIssue (scan : IssueScan) (entry : RobEntry lastReg) : Decision :=
  let op := entry.uop.microOp
  if timer.now < entry.ready then .wait
  else if (scan.noMoreLoad && op.isLoad) || (scan.noMoreStore && op.isStore) then
    .wait
  else if op.serializing then
    if scan.headOfQueue ∧ timer.lastStoreDone ≤ timer.now then .issue else .stop
  else if op.isMemBarrier then
    if scan.headOfQueue ∧ timer.lastStoreDone ≤ timer.now then .issue
    else .waitBarrier
  else if core.robContention.isNone ∧ scan.numIssued = core.dispatchWidth then
    .wait
  else if op.isLoad && !timer.loadQueue.hasFreeSlot timer.now then .wait
  else if op.isLoad && core.noAddressDisambiguation &&
      scan.haveUnresolvedStore then .wait
  else if op.isStore && (!scan.headOfQueue ||
      !timer.storeQueue.hasFreeSlot timer.now) then .wait
  else .issue

/-- `tryIssue` for an entry that may issue. -/
def tryIssue (uop : DynamicMicroOp lastReg) (decision : Decision) :
    Bool × RobTimer lastReg Outside :=
  match decision, core.robContention with
  | .issue, some contention =>
      let (free, outside) := contention.tryIssue timer.outside uop
      (free, { timer with outside := outside })
  | .issue, none => (true, timer)
  | _, _ => (false, timer)

/-- Whether the loop ends after an entry that was looked at. -/
def noMoreIssue (scan : IssueScan) : Bool :=
  match core.robContention with
  | none => decide (scan.numIssued = core.dispatchWidth)
  | some contention => contention.noMore timer.outside

/-- The loop of `doIssue` over the entries that are left. -/
def issueLoop : Nat → Nat → IssueScan → RobTimer lastReg Outside →
    Except Failure (SubsecondTime × RobTimer lastReg Outside)
  | 0, _, scan, timer => .ok (scan.nextEvent, timer)
  | remaining + 1, i, scan, timer =>
      match timer.entryAt i with
      | none => .error .asserted
      | some entry =>
          if entry.done ≠ ⊤ then
            issueLoop remaining (i + 1)
              { scan with nextEvent := min scan.nextEvent entry.done } timer
          else
            let scan := { scan with
              nextEvent := min scan.nextEvent entry.ready }
            let decision := timer.decideIssue core scan entry
            if decision = .stop then .ok (scan.nextEvent, timer)
            else
              let barrier := decide (decision = .waitBarrier)
              let scan := { scan with
                noMoreLoad := scan.noMoreLoad || barrier
                noMoreStore := scan.noMoreStore || barrier }
              let (canIssue, timer) := timer.tryIssue core entry.uop decision
              if canIssue then do
                let (done, timer) ← timer.issueInstruction core i entry
                let scan := { scan with
                  numIssued := scan.numIssued + 1
                  nextEvent := min scan.nextEvent done }
                if timer.noMoreIssue core scan then
                  return (scan.nextEvent, timer)
                else
                  issueLoop remaining (i + 1) scan timer
              else
                let unresolved := entry.uop.microOp.isStore &&
                  decide (timer.now < entry.addressReady)
                let scan := { scan with
                  headOfQueue := false
                  haveUnresolvedStore := scan.haveUnresolvedStore || unresolved }
                if core.inorder || timer.noMoreIssue core scan then
                  .ok (scan.nextEvent, timer)
                else
                  issueLoop remaining (i + 1) scan timer

/-- The contention model learns that a cycle begins. -/
def initCycle : RobTimer lastReg Outside :=
  match core.robContention with
  | none => timer
  | some contention =>
      { timer with outside := contention.initCycle timer.outside timer.now }

/-- `doIssue`, with the next event. -/
def doIssue : Except Failure (SubsecondTime × RobTimer lastReg Outside) :=
  issueLoop core timer.numInRob 0 {} (timer.initCycle core)

/-! ## Commit and cycles -/

/-- The front of the queue leaves it. -/
def pop : RobTimer lastReg Outside :=
  { timer with popped := timer.popped + 1, numInRob := timer.numInRob - 1 }

/-- The loop of `doCommit` over the entries of the queue, with the number of
the instructions that are finished. -/
def commitLoop : Nat → Nat → Nat → RobTimer lastReg Outside →
    Nat × RobTimer lastReg Outside
  | 0, _, instructionsExecuted, timer => (instructionsExecuted, timer)
  | remaining + 1, numCommitted, instructionsExecuted, timer =>
      match timer.entryAt 0 with
      | none => (instructionsExecuted, timer)
      | some entry =>
          if entry.done ≤ timer.now then
            let instructionsExecuted :=
              if entry.uop.last then instructionsExecuted + 1
              else instructionsExecuted
            if numCommitted + 1 = core.commitWidth then
              (instructionsExecuted, timer.pop)
            else
              commitLoop remaining (numCommitted + 1) instructionsExecuted
                timer.pop
          else
            (instructionsExecuted, timer)

/-- `doCommit`, with the next event. -/
def doCommit : SubsecondTime × Nat × RobTimer lastReg Outside :=
  let (instructionsExecuted, timer) :=
    commitLoop core timer.size 0 0 timer
  match timer.entryAt 0 with
  | none => (⊤, instructionsExecuted, timer)
  | some entry => (entry.done, instructionsExecuted, timer)

/-- The time from a cycle to the next one that is run. -/
def skip (nextEvent : SubsecondTime) : Nat :=
  if nextEvent ≠ ⊤ ∧ ((timer.now + core.period : Nat) : SubsecondTime) < nextEvent
  then nextEvent.untopD 0 - timer.now
  else core.period

/-- `execute`, with the instructions that are finished and the latency. -/
def execute : Except Failure (RobTimer lastReg Outside × Nat × Nat) :=
  if timer.frontendStalledUntil ≤ timer.now ∧
      timer.size < timer.numInRob + 2 * core.dispatchWidth then
    .ok (timer, 0, 0)
  else do
    let (nextDispatch, timer) ← timer.doDispatch core
    let (nextIssue, timer) ← timer.doIssue core
    let (nextCommit, instructionsExecuted, timer) := timer.doCommit core
    let skip := timer.skip core (min nextDispatch (min nextIssue nextCommit))
    return ({ timer with now := timer.now + skip }, instructionsExecuted, skip)

/-- The loop of `simulate` over the micro-operations. -/
def insertAll : List (DynamicMicroOp lastReg) → RobTimer lastReg Outside →
    Except Failure (RobTimer lastReg Outside)
  | [], timer => .ok timer
  | uop :: rest, timer =>
      if uop.squashed then insertAll rest timer
      else do
        let timer ← timer.insert core uop
        insertAll rest timer

/-- The loop of `simulate` that executes, for a number of rounds. It does not
end if the rounds are not enough. -/
def executeLoop : Nat → Nat → Nat → RobTimer lastReg Outside →
    Except Failure (Option (RobTimer lastReg Outside × Nat × Nat))
  | 0, _, _, _ => .ok none
  | rounds + 1, totalInsnExec, totalLat, timer => do
      let (timer, instructionsExecuted, latency) ← timer.execute core
      if latency = 0 then
        return some (timer, totalInsnExec + instructionsExecuted,
          totalLat + latency)
      else
        executeLoop rounds (totalInsnExec + instructionsExecuted)
          (totalLat + latency) timer

def simulate (rounds : Nat) (insts : List (DynamicMicroOp lastReg)) :
    Except Failure (Option (RobTimer lastReg Outside × Nat × Nat)) := do
  let timer ← insertAll core insts timer
  executeLoop core rounds 0 0 timer

def synchronize (time : Nat) : RobTimer lastReg Outside :=
  { timer with now := time }

end RobTimer

end ChipletSniper.Rob
