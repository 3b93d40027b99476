import Mathlib.Data.List.Dedup
import Mathlib.Logic.Function.Basic
import ChipletSniper.Rob.DynamicMicroOp
import Mathlib.Order.Lattice.Nat
import Mathlib.Order.Fin.Basic

/-!
# The producers of a micro-operation

`RegisterDependencies` keeps the last writer of every register, and
`MemoryDependencies` a queue of the stores in the window and the last memory
barrier.  Writers and stores that have left the window are recognised by
`<` and `>=`, the barrier by `>`: a barrier that is the oldest valid
micro-operation is missed.
-/

namespace ChipletSniper.Rob

variable {lastReg : Nat}

/-- The table of producers; `INVALID_SEQNR` is `none`. -/
structure RegisterDependencies (lastReg : Nat) where
  producers : Fin lastReg → Option Nat

namespace RegisterDependencies

/-- `clear`, which the constructor calls. -/
def start : RegisterDependencies lastReg where
  producers := fun _ => none

/-- The loop over the source registers. -/
def addSources (lowest : Nat) :
    List (Fin lastReg) → RegisterDependencies lastReg → DynamicMicroOp lastReg →
      Except Failure (RegisterDependencies lastReg × DynamicMicroOp lastReg)
  | [], registers, uop => .ok (registers, uop)
  | source :: rest, registers, uop =>
      match registers.producers source with
      | none => addSources lowest rest registers uop
      | some producer =>
          if producer ≥ lowest then do
            let uop ← uop.addDependency producer
            addSources lowest rest registers uop
          else
            addSources lowest rest
              ⟨Function.update registers.producers source none⟩ uop

/-- The loop over the destination registers. -/
def updateProducers (sequenceNumber : Nat) (registers : RegisterDependencies lastReg)
    (destinations : List (Fin lastReg)) : RegisterDependencies lastReg :=
  destinations.foldl (fun registers destination =>
    ⟨Function.update registers.producers destination (some sequenceNumber)⟩)
    registers

def setDependencies (registers : RegisterDependencies lastReg)
    (uop : DynamicMicroOp lastReg) (lowest : Nat) :
    Except Failure (RegisterDependencies lastReg × DynamicMicroOp lastReg) := do
  let (registers, next) ←
    addSources lowest uop.microOp.sourceRegisters registers uop
  return (registers.updateProducers uop.sequenceNumber
    uop.microOp.destinationRegisters, next)

def peekProducer (registers : RegisterDependencies lastReg)
    (register : Option (Fin lastReg)) (lowest : Nat) : Option Nat :=
  match register with
  | none => none
  | some register =>
      match registers.producers register with
      | none => none
      | some producer => if producer < lowest then none else some producer

end RegisterDependencies

/-- `MemoryDependencies::Producer`. -/
structure Producer where
  seqnr : Nat
  address : Nat
  deriving DecidableEq, Repr

structure MemoryDependencies where
  producers : List Producer
  membar : Option Nat

/-- The size of the queue of producers. -/
def memoryProducers : Nat := 1024

namespace MemoryDependencies

def start : MemoryDependencies := ⟨[], none⟩

variable (memory : MemoryDependencies)

def add (sequenceNumber address : Nat) : Except Failure MemoryDependencies :=
  if memory.producers.length < memoryProducers then
    .ok { memory with
      producers := memory.producers ++ [⟨sequenceNumber, address⟩] }
  else
    .error .queueFull

/-- The list is traversed from its end. -/
def find (address : Nat) : Option Nat :=
  (memory.producers.reverse.find? fun producer =>
    producer.address = address).map Producer.seqnr

def clean (lowest : Nat) : MemoryDependencies :=
  { memory with
    producers := memory.producers.dropWhile fun producer =>
      producer.seqnr < lowest }

/-- The barrier that a load, a store and a barrier depend on. -/
def validMembar (lowest : Nat) : Option Nat :=
  memory.membar.filter fun membar => membar > lowest

end MemoryDependencies

/-- `addDependency` for a producer, if there is one. -/
def DynamicMicroOp.addProducer (uop : DynamicMicroOp lastReg) :
    Option Nat → Except Failure (DynamicMicroOp lastReg)
  | none => .ok uop
  | some producer => uop.addDependency producer

def MemoryDependencies.setDependencies (memory : MemoryDependencies)
    (uop : DynamicMicroOp lastReg) (lowest : Nat) :
    Except Failure (MemoryDependencies × DynamicMicroOp lastReg) :=
  let memory := memory.clean lowest
  if uop.microOp.isLoad then do
    let uop ← uop.addProducer (memory.find uop.address)
    let uop ← uop.addProducer (memory.validMembar lowest)
    return (memory, uop)
  else if uop.microOp.isStore then do
    let memory ← memory.add uop.sequenceNumber uop.address
    let uop ← uop.addProducer (memory.validMembar lowest)
    return (memory, uop)
  else if uop.microOp.isMemBarrier then do
    let next ← uop.addProducer (memory.validMembar lowest)
    return ({ memory with membar := some uop.sequenceNumber }, next)
  else
    return (memory, uop)

/-- Both tables. -/
structure Dependencies (lastReg : Nat) where
  registers : RegisterDependencies lastReg
  memory : MemoryDependencies

namespace Dependencies

def start : Dependencies lastReg :=
  ⟨RegisterDependencies.start, MemoryDependencies.start⟩

/-- A micro-operation with the oldest valid number at its time. -/
structure Entry (lastReg : Nat) where
  uop : DynamicMicroOp lastReg
  lowest : Nat

def setDependencies (tables : Dependencies lastReg) (entry : Entry lastReg) :
    Except Failure (Dependencies lastReg × DynamicMicroOp lastReg) := do
  let (registers, uop) ←
    tables.registers.setDependencies entry.uop entry.lowest
  let (memory, uop) ← tables.memory.setDependencies uop entry.lowest
  return (⟨registers, memory⟩, uop)

/-- The micro-operations of a stream with their dependencies. -/
def track : Dependencies lastReg → List (Entry lastReg) →
    Except Failure (List (DynamicMicroOp lastReg))
  | _, [] => .ok []
  | tables, entry :: rest => do
      let (tables, uop) ← tables.setDependencies entry
      let uops ← track tables rest
      return uop :: uops

end Dependencies

end ChipletSniper.Rob
