import Mathlib.Data.List.Range
import Mathlib.Logic.Function.Basic

/-!
# A store of lines

Memory is cut into lines of the same size, some of which are in the store with
a status.  Lines enter and leave the store.
-/

namespace ChipletSniper.Library

open Function

variable {Byte : Type*}

/-! ## Arrays -/

/-- The values at consecutive places of an array. -/
def copyOut (array : Nat → Byte) (first count : Nat) : List Byte :=
  (List.range count).map fun place => array (first + place)

/-- An array with a list written over its places from `first` on. -/
def copyIn (array : Nat → Byte) (first : Nat) (bytes : List Byte) :
    Nat → Byte :=
  fun place =>
    if first ≤ place then (bytes[place - first]?).getD (array place)
    else array place

theorem copyIn_of_outside (array : Nat → Byte) {first : Nat}
    {bytes : List Byte} {place : Nat}
    (outside : place < first ∨ first + bytes.length ≤ place) :
    copyIn array first bytes place = array place := by
  rw [copyIn]
  split
  next behind =>
    rw [List.getElem?_eq_none (by omega)]
    rfl
  · rfl

namespace LineStore

/-! ## Stores -/

variable {Status : Type*}

/-- The lines that are there, with their status. -/
abbrev Store (Status : Type*) := Nat → Option Status

inductive Event (Status : Type*) where
  | look (line : Nat) (status : Option Status)
  | change (line : Nat) (change : Status → Status) (found : Bool)
  | remove (line : Nat) (found : Bool)
  | insert (line : Nat) (status : Status) (evicted : Option (Nat × Status))

def Store.has (store : Store Status) (line : Nat) : Bool := (store line).isSome

/-- What a store with lines of `size` bytes answers, and what is in it
afterwards.  A line that enters may replace any other one. -/
inductive Step (size : Nat) :
    Store Status → Event Status → Store Status → Prop
  | look {store : Store Status} (line : Nat) :
      Step size store (.look line (store line)) store
  | change {store : Store Status} (line : Nat) (change : Status → Status) :
      Step size store (.change line change (store.has line))
        (update store line ((store line).map change))
  | remove {store : Store Status} (line : Nat) :
      Step size store (.remove line (store.has line)) (update store line none)
  | insert {store : Store Status} {line : Nat} {status : Status} :
      store.has line = false →
      Step size store (.insert line status none)
        (update store line (some status))
  | replace {store : Store Status} {line victim : Nat}
      {status old : Status} :
      store.has line = false → store victim = some old →
      Step size store (.insert line status (some (victim * size, old)))
        (update (update store victim none) line (some status))

/-- The steps of a list of events. -/
inductive Run (size : Nat) :
    Store Status → List (Event Status) → Store Status → Prop
  | nil (store : Store Status) : Run size store [] store
  | cons {store next last : Store Status} {event : Event Status}
      {events : List (Event Status)} :
      Step size store event next → Run size next events last →
        Run size store (event :: events) last

end LineStore

end ChipletSniper.Library
