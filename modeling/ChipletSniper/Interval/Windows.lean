import ChipletSniper.Library.LongestPath
import ChipletSniper.Library.Runs
import ChipletSniper.Rob.Dependencies
import Mathlib.Algebra.Group.Int.Defs

/-!
# The double window of the interval model

The micro-operations that were dispatched last lie in front of those that are
still to be dispatched in one circular array. The resolution time of a branch
is found by marking its producers in the old window, and their producers,
from the newest to the oldest.
-/

namespace ChipletSniper.Interval

open Library Rob Function

/-- What stops the simulation. -/
inductive Failure where
  /-- "Window is full". -/
  | windowFull
  /-- "Index is out of bounds". -/
  | outOfBounds
  /-- An entry without a micro-operation is dereferenced. -/
  | nullMicroOp
  /-- "Getting an instruction that is not in the window". -/
  | notInWindow
  /-- An assertion about the dependencies. -/
  | dependencies (failure : Rob.Failure)
  deriving DecidableEq, Repr

/-- `Windows::WindowEntry` with its micro-operation. -/
structure WindowEntry (lastReg : Nat) where
  windowIndex : Nat
  uop : DynamicMicroOp lastReg
  deriving DecidableEq, Repr

/-- `Windows`. An entry is `none` while its `uop` is `NULL`. -/
structure Windows (lastReg : Nat) where
  windowSize : Nat
  doubleWindow : Nat → Option (DynamicMicroOp lastReg)
  execTimeMap : Nat → Nat
  nextSequenceNumber : Nat
  dependencies : Dependencies lastReg
  /-- `m_window_head__old_window_tail`. -/
  windowHead : Nat
  windowTail : Nat
  oldWindowHead : Nat
  windowLength : Nat
  oldWindowLength : Nat

namespace Windows

variable {lastReg : Nat}

/-- `clear`. The entries keep their micro-operations. -/
def clear (windows : Windows lastReg) : Windows lastReg :=
  { windows with
    execTimeMap := fun _ => 0
    nextSequenceNumber := 0
    dependencies := Dependencies.start
    windowHead := 0
    windowTail := 0
    oldWindowHead := 0
    windowLength := 0
    oldWindowLength := 0 }

/-- The constructor. -/
def start (windowSize : Nat) : Windows lastReg where
  windowSize := windowSize
  doubleWindow := fun _ => none
  execTimeMap := fun _ => 0
  nextSequenceNumber := 0
  dependencies := Dependencies.start
  windowHead := 0
  windowTail := 0
  oldWindowHead := 0
  windowLength := 0
  oldWindowLength := 0

variable (windows : Windows lastReg)

def doubleWindowSize : Nat := 2 * windows.windowSize

def wIsFull : Bool := windows.windowLength = windows.windowSize

def wIsEmpty : Bool := windows.windowLength = 0

def incrementIndex (index : Nat) : Nat :=
  (index + 1) % windows.doubleWindowSize

def decrementIndex (index : Nat) : Nat :=
  (index + windows.doubleWindowSize - 1) % windows.doubleWindowSize

/-- The argument may be negative, and `%` rounds towards zero. -/
def windowIndex (index : Int) : Nat :=
  ((index.tmod windows.doubleWindowSize + windows.doubleWindowSize).tmod
    windows.doubleWindowSize).toNat

/-- `getInstructionByIndex`, where the caller uses the micro-operation. -/
def getInstructionByIndex (index : Nat) :
    Except Failure (WindowEntry lastReg) :=
  if index < windows.doubleWindowSize then
    match windows.doubleWindow index with
    | some uop => .ok ⟨index, uop⟩
    | none => .error .nullMicroOp
  else
    .error .outOfBounds

def getInstructionToDispatch : Except Failure (WindowEntry lastReg) :=
  windows.getInstructionByIndex windows.windowHead

/-- The micro-operation is stored before its dependencies are known. -/
def store (uop : DynamicMicroOp lastReg) : Windows lastReg :=
  { windows with
    doubleWindow := update windows.doubleWindow windows.windowTail uop
    windowTail := windows.incrementIndex windows.windowTail
    windowLength := windows.windowLength + 1
    nextSequenceNumber := windows.nextSequenceNumber + 1 }

/-- What `setDependencies` leaves behind. -/
def settle (index : Nat) (tables : Dependencies lastReg)
    (uop : DynamicMicroOp lastReg) : Windows lastReg :=
  { windows with
    doubleWindow := update windows.doubleWindow index uop
    dependencies := tables }

def add (microOp : DynamicMicroOp lastReg) :
    Except Failure (Windows lastReg) :=
  if windows.wIsFull then
    .error .windowFull
  else if windows.windowTail < windows.doubleWindowSize then do
    let microOp :=
      { microOp with sequenceNumber := windows.nextSequenceNumber }
    let stored := windows.store microOp
    let lowest ← stored.getInstructionByIndex stored.oldWindowHead
    let (tables, microOp) ←
      (stored.dependencies.setDependencies
        ⟨microOp, lowest.uop.sequenceNumber⟩).mapError .dependencies
    return stored.settle windows.windowTail tables microOp
  else
    .error .outOfBounds

/-- When the old window has its full length its oldest entry leaves it. -/
def shrinkOldWindow : Windows lastReg :=
  if windows.oldWindowLength = windows.windowSize then
    { windows with
      oldWindowHead := windows.incrementIndex windows.oldWindowHead
      oldWindowLength := windows.oldWindowLength - 1 }
  else
    windows

def moveHead : Windows lastReg :=
  { windows with
    windowHead := windows.incrementIndex windows.windowHead
    windowLength := windows.windowLength - 1
    oldWindowLength := windows.oldWindowLength + 1 }

def dispatchInstruction : Windows lastReg :=
  windows.shrinkOldWindow.moveHead

def clearOldWindow : Windows lastReg :=
  { windows with
    oldWindowLength := 0
    oldWindowHead := windows.windowHead }

/-- `setExecLatency` for the micro-operation of an entry. -/
def setExecLatency (index latency : Nat) : Windows lastReg :=
  { windows with
    doubleWindow := update windows.doubleWindow index
      ((windows.doubleWindow index).map fun uop =>
        { uop with execLatency := latency }) }

def getInstruction (sequenceNumber : Nat) :
    Except Failure (WindowEntry lastReg) := do
  let windowHead ← windows.getInstructionByIndex windows.windowHead
  let distance : Int := windowHead.uop.sequenceNumber - sequenceNumber
  let ret ← windows.getInstructionByIndex
    (windows.windowIndex (windowHead.windowIndex - distance))
  if ret.uop.sequenceNumber = sequenceNumber then
    return ret
  else
    throw .notInWindow

def oldWindowContains (sequenceNumber : Nat) : Except Failure Bool := do
  let lowestValid ← windows.getInstructionByIndex windows.oldWindowHead
  let highestValid ← windows.getInstructionByIndex
    (windows.decrementIndex windows.windowHead)
  return lowestValid.uop.sequenceNumber ≤ sequenceNumber ∧
    sequenceNumber ≤ highestValid.uop.sequenceNumber

/-- The body of both loops over dependencies: `update` is done for the entry
of a producer in the old window. -/
def visitProducer
    (update : (Nat → Nat) → WindowEntry lastReg → Nat → Nat)
    (times : Nat → Nat) (dependency : Nat) : Except Failure (Nat → Nat) := do
  if ← windows.oldWindowContains dependency then
    let producer ← windows.getInstruction dependency
    return update times producer
  else
    return times

/-- A direct producer gets its own latency. -/
def markDirect (times : Nat → Nat) (producer : WindowEntry lastReg) :
    Nat → Nat :=
  update times producer.windowIndex producer.uop.execLatency

/-- A producer of a marked entry gets its latency after that entry's time, in
32 bits. -/
def markProducer (index : Nat) (times : Nat → Nat)
    (producer : WindowEntry lastReg) : Nat → Nat :=
  update times producer.windowIndex
    (max ((producer.uop.execLatency + times index) % 2 ^ 32)
      (times producer.windowIndex))

/-- One turn of the loop over the old window. -/
def resolve (state : Sweep Nat) (index : Nat) :
    Except Failure (Sweep Nat) := do
  if state.times index = 0 then
    return state
  else
    let op ← windows.getInstructionByIndex index
    let times ← op.uop.dependencyList.foldlM
      (windows.visitProducer (markProducer index)) state.times
    return {
      times := update times index 0
      longest := max state.longest (times index) }

/-- The indices of a loop that goes backward. -/
def backward (windows : Windows lastReg) : Nat → Int → List Nat
  | 0, _ => []
  | count + 1, index =>
      windows.windowIndex index ::
        backward windows count (windows.windowIndex index - 1)

/-- The entries of the old window, from the newest to the oldest. -/
def oldWindow : List Nat :=
  windows.backward windows.oldWindowLength (windows.windowHead - 1)

/-- The conversion of a `uint32_t` to an `int`. -/
def toInt (value : Nat) : Int :=
  if value < 2 ^ 31 then value else value - 2 ^ 32

def calculateBranchResolutionLatency :
    Except Failure (Int × Windows lastReg) := do
  let microOp ← windows.getInstructionToDispatch
  let times ← microOp.uop.dependencyList.foldlM
    (windows.visitProducer markDirect) windows.execTimeMap
  let state ← windows.oldWindow.foldlM windows.resolve ⟨times, 0⟩
  return (toInt state.longest, { windows with execTimeMap := state.times })

/-! ## Producers and paths -/

/-- The entry of the old window with a number. -/
def oldProducer (sequenceNumber : Nat) : Option Nat :=
  windows.oldWindow.find? fun index =>
    (windows.doubleWindow index).any fun uop =>
      uop.sequenceNumber = sequenceNumber

/-- The entries of the old window that a micro-operation depends on. -/
def producers (uop : DynamicMicroOp lastReg) : List Nat :=
  uop.dependencyList.filterMap windows.oldProducer

def producersAt (index : Nat) : List Nat :=
  match windows.doubleWindow index with
  | some uop => windows.producers uop
  | none => []

def execLatencyAt (index : Nat) : Nat :=
  match windows.doubleWindow index with
  | some uop => uop.execLatency
  | none => 0

/-- Every number that the micro-operation to dispatch and those of the old
window depend on is an earlier one. -/
structure DependenciesEarlier : Prop where
  dispatched : ∀ {uop : DynamicMicroOp lastReg},
    windows.doubleWindow windows.windowHead = some uop →
      ∀ number ∈ uop.dependencyList, number < uop.sequenceNumber
  old : ∀ {index : Nat} {uop : DynamicMicroOp lastReg},
    index ∈ windows.oldWindow → windows.doubleWindow index = some uop →
      ∀ number ∈ uop.dependencyList, number < uop.sequenceNumber

/-- What the interval timer does with the windows. -/
inductive Step : Windows lastReg → Windows lastReg → Prop where
  | add {windows next : Windows lastReg} (microOp : DynamicMicroOp lastReg) :
      windows.add microOp = .ok next → Step windows next
  | dispatchInstruction {windows : Windows lastReg} :
      ¬ windows.wIsEmpty → Step windows windows.dispatchInstruction
  | clearOldWindow {windows : Windows lastReg} :
      Step windows windows.clearOldWindow
  | clear {windows : Windows lastReg} : Step windows windows.clear
  | setExecLatency {windows : Windows lastReg} (index latency : Nat) :
      Step windows (windows.setExecLatency index latency)
  | resolved {windows next : Windows lastReg} {latency : Int} :
      ¬ windows.wIsEmpty → windows.DependenciesEarlier →
        windows.calculateBranchResolutionLatency = .ok (latency, next) →
          Step windows next

/-- The states of the windows after any steps. -/
def Reachable (windowSize : Nat) (windows : Windows lastReg) : Prop :=
  Relation.ReflTransGen Step (start windowSize) windows

end Windows

end ChipletSniper.Interval
