import Mathlib.Data.List.FinRange
import Mathlib.Logic.Function.Basic
import ChipletSniper.Library.CyclicSearch
import Mathlib.Algebra.Group.Nat.Defs
import Mathlib.Algebra.GroupWithZero.Nat

/-!
# Replacement in a cache set

The replacement policies of the cache sets.  A line whose upgrade is pending
must not be replaced; every policy has its own way to look for a victim, and
most of them ask `isValidReplacement` on the way.  Counters and pointers are
numbers of eight bits: with more than 256 ways a pointer goes around the first
256 of them.
-/

namespace ChipletSniper.Cache

open Library

/-- `CacheState::cstate_t`. -/
inductive CState where
  | invalid
  | shared
  | sharedUpgrading
  | exclusive
  | owned
  | modified
  deriving DecidableEq, Repr

/-- `CacheBlockInfo`, as far as replacement looks at it: whether the tag is
one, and the state. -/
structure Block where
  valid : Bool
  cstate : CState
  deriving DecidableEq, Repr

/-- A new block, or one after `invalidate`. -/
def Block.empty : Block := ⟨false, .invalid⟩

abbrev Blocks (n : Nat) := Fin n → Block

variable {n : Nat}

def isValidReplacement (blocks : Blocks n) (way : Fin n) : Bool :=
  (blocks way).cstate ≠ .sharedUpgrading

/-- The loop with which most policies start. -/
def firstInvalid (blocks : Blocks n) : Option (Fin n) :=
  (List.finRange n).find? fun way => !(blocks way).valid

/-- Why `getReplacementIndex` has no result. -/
inductive Failure where
  /-- The recursion has not come to its end yet. -/
  | fuel
  /-- An assertion, or the error behind the loops. -/
  | error
  deriving DecidableEq, Repr

/-- What `isInLowerLevelCache` answers for a way at an attempt. -/
abbrev Queries (n : Nat) := Nat → Fin n → Bool

/-- A subclass of `CacheSet`. -/
structure Policy (n : Nat) where
  State : Type
  start : State
  getReplacementIndex : Nat → Queries n → Blocks n → State →
    Except Failure (Fin n × State)
  updateReplacementIndex : Fin n → State → Except Failure State

/-! ## Round robin -/

namespace RoundRobin

/-- The way before, and the last way before way `0`. -/
def previous (index : Fin n) : Fin n :=
  if (index : Nat) = 0 then ⟨n - 1, by have := index.pos; omega⟩
  else ⟨index - 1, by omega⟩

def getReplacementIndex (blocks : Blocks n) :
    Nat → Fin n → Except Failure (Fin n × Fin n)
  | 0, _ => .error .fuel
  | fuel + 1, index =>
      if !isValidReplacement blocks (previous index) then
        getReplacementIndex blocks fuel (previous index)
      else
        .ok (index, previous index)

end RoundRobin

/-- `CacheSetRoundRobin`. -/
def roundRobin (n : Nat) [NeZero n] : Policy n where
  State := Fin n
  start := RoundRobin.previous 0
  getReplacementIndex := fun fuel _ blocks index =>
    RoundRobin.getReplacementIndex blocks fuel index
  updateReplacementIndex := fun _ index => .ok index

/-! ## Least recently used -/

/-- The counters of the recency policies at first. -/
def initialBits (way : Fin n) : Nat := way % 256

/-- `moveToMRU`; a counter that is increased is below another one. -/
def moveToMRU (accessed : Fin n) (bits : Fin n → Nat) (way : Fin n) : Nat :=
  if way = accessed then 0
  else if bits way < bits accessed then bits way + 1
  else bits way

/-- The assertion in `CacheSetInfoLRU::increment`. -/
def increment (n index : Nat) : Except Failure Unit :=
  if index < n then .ok () else .error .error

namespace Lru

/-- The search for the largest counter, which starts from way `0` and the
counter `0`. -/
def victim [NeZero n] (blocks : Blocks n) (bits : Fin n → Nat) : Fin n :=
  ((List.finRange n).foldl (fun (best : Fin n × Nat) way =>
    if best.2 < bits way ∧ isValidReplacement blocks way = true then
      (way, bits way)
    else best) (0, 0)).1

/-- The loop over the attempts, with the number that is left. -/
def evict [NeZero n] (numAttempts : Nat) (queries : Queries n)
    (blocks : Blocks n) : Nat → Nat → (Fin n → Nat) →
      Except Failure (Fin n × (Fin n → Nat))
  | 0, _, _ => .error .error
  | left + 1, attempt, bits =>
      let index := victim blocks bits
      if attempt + 1 < numAttempts ∧ queries attempt index = true then
        evict numAttempts queries blocks left (attempt + 1)
          (moveToMRU index bits)
      else
        .ok (index, moveToMRU index bits)

def getReplacementIndex [NeZero n] (numAttempts : Nat) (queries : Queries n)
    (blocks : Blocks n) (bits : Fin n → Nat) :
    Except Failure (Fin n × (Fin n → Nat)) :=
  match firstInvalid blocks with
  | some way => .ok (way, moveToMRU way bits)
  | none => evict numAttempts queries blocks numAttempts 0 bits

def updateReplacementIndex (accessed : Fin n) (bits : Fin n → Nat) :
    Except Failure (Fin n → Nat) := do
  increment n (bits accessed)
  return moveToMRU accessed bits

end Lru

/-- `CacheSetLRU`. -/
def lru (n : Nat) [NeZero n] (numAttempts : Nat) : Policy n where
  State := Fin n → Nat
  start := initialBits
  getReplacementIndex := fun _ queries blocks bits =>
    Lru.getReplacementIndex numAttempts queries blocks bits
  updateReplacementIndex := Lru.updateReplacementIndex

/-! ## Most recently used -/

namespace Mru

def getReplacementIndex (blocks : Blocks n) (bits : Fin n → Nat) :
    Except Failure (Fin n × (Fin n → Nat)) :=
  match firstInvalid blocks with
  | some way => .ok (way, moveToMRU way bits)
  | none =>
      match (List.range n).findSome? fun target =>
        (List.finRange n).find? fun way =>
          bits way = target && isValidReplacement blocks way with
      | some way => .ok (way, moveToMRU way bits)
      | none => .error .error

end Mru

/-- `CacheSetMRU`. -/
def mru (n : Nat) : Policy n where
  State := Fin n → Nat
  start := initialBits
  getReplacementIndex := fun _ _ blocks bits =>
    Mru.getReplacementIndex blocks bits
  updateReplacementIndex := fun accessed bits => .ok (moveToMRU accessed bits)

/-! ## Policies with a pointer -/

/-- What a pointer of eight bits points to. -/
abbrev Pointer (n : Nat) := Fin (min n 256)

def Pointer.way (pointer : Pointer n) : Fin n :=
  Fin.castLE (Nat.min_le_left n 256) pointer

def Pointer.start [NeZero n] : Pointer n :=
  ⟨0, Nat.lt_min.mpr ⟨Nat.pos_of_neZero n, by decide⟩⟩

/-- `m_replacement_pointer = (m_replacement_pointer + 1) % m_associativity`. -/
def Pointer.next (pointer : Pointer n) : Pointer n :=
  ⟨(pointer + 1) % n % 256, by
    have small := (pointer.way).pos
    exact Nat.lt_min.mpr
      ⟨Nat.lt_of_le_of_lt (Nat.mod_le _ _) (Nat.mod_lt _ small),
        Nat.mod_lt _ (by decide)⟩⟩

/-- The search from the pointer, with the number of steps. -/
def searchFrom (wanted : Fin n → Bool) :
    Nat → Pointer n → Option (Pointer n × Pointer n)
  | 0, _ => none
  | steps + 1, pointer =>
      if wanted pointer.way then some (pointer, pointer.next)
      else searchFrom wanted steps pointer.next

structure NmruState (n : Nat) where
  bits : Fin n → Nat
  pointer : Pointer n

namespace Nmru

def getReplacementIndex (blocks : Blocks n) (state : NmruState n) :
    Except Failure (Fin n × NmruState n) :=
  match firstInvalid blocks with
  | some way => .ok (way, { state with bits := moveToMRU way state.bits })
  | none =>
      match searchFrom (fun way => decide (state.bits way ≠ 0) &&
        isValidReplacement blocks way) n state.pointer with
      | some (index, next) =>
          .ok (index.way, ⟨moveToMRU index.way state.bits, next⟩)
      | none => .error .error

end Nmru

/-- `CacheSetNMRU`. -/
def nmru (n : Nat) [NeZero n] : Policy n where
  State := NmruState n
  start := ⟨initialBits, Pointer.start⟩
  getReplacementIndex := fun _ _ blocks state =>
    Nmru.getReplacementIndex blocks state
  updateReplacementIndex := fun accessed state =>
    .ok { state with bits := moveToMRU accessed state.bits }

structure NruState (n : Nat) where
  bits : Fin n → Bool
  /-- `m_num_bits_set`, a number of eight bits. -/
  numBitsSet : Nat
  pointer : Pointer n

namespace Nru

def updateReplacementIndex (accessed : Fin n) (state : NruState n) :
    NruState n :=
  let numBitsSet := (state.numBitsSet + 1) % 256
  if numBitsSet = n then
    { state with bits := fun _ => false, numBitsSet := 0 }
  else
    { state with
      bits := Function.update state.bits accessed true
      numBitsSet := numBitsSet }

def haveZeroBit (blocks : Blocks n) (state : NruState n) : Bool :=
  (List.finRange n).any fun way =>
    !state.bits way && isValidReplacement blocks way

def getReplacementIndex (blocks : Blocks n) (state : NruState n) :
    Except Failure (Fin n × NruState n) :=
  match firstInvalid blocks with
  | some way => .ok (way, updateReplacementIndex way state)
  | none =>
      match searchFrom (fun way =>
        (!state.bits way || !haveZeroBit blocks state) &&
          isValidReplacement blocks way) n state.pointer with
      | some (index, next) =>
          .ok (index.way,
            updateReplacementIndex index.way { state with pointer := next })
      | none => .error .error

end Nru

/-- `CacheSetNRU`. -/
def nru (n : Nat) [NeZero n] : Policy n where
  State := NruState n
  start := ⟨fun _ => false, 0, Pointer.start⟩
  getReplacementIndex := fun _ _ blocks state =>
    Nru.getReplacementIndex blocks state
  updateReplacementIndex := fun accessed state =>
    .ok (Nru.updateReplacementIndex accessed state)

/-! ## The tree of four and eight ways -/

abbrev Tree := Fin 8 → Bool

namespace Plru

/-- The way that the tree points to. -/
def pointed (n : Nat) (b : Tree) : Option Nat :=
  if n = 4 then
    some <|
      if b 0 = false then
        if b 1 = false then 0 else 1
      else
        if b 2 = false then 2 else 3
  else if n = 8 then
    some <|
      if b 0 = false then
        if b 1 = false then
          if b 2 = false then 0 else 1
        else
          if b 3 = false then 2 else 3
      else
        if b 4 = false then
          if b 5 = false then 4 else 5
        else
          if b 6 = false then 6 else 7
  else none

/-- The bits that an access sets, in their order. -/
def touched (n accessed : Nat) : List (Fin 8 × Bool) :=
  if n = 4 then
    match accessed with
    | 0 => [(0, true), (1, true)]
    | 1 => [(0, true), (1, false)]
    | 2 => [(0, false), (2, true)]
    | 3 => [(0, false), (2, false)]
    | _ => []
  else
    match accessed with
    | 0 => [(0, true), (1, true), (2, true)]
    | 1 => [(0, true), (1, true), (2, false)]
    | 2 => [(0, true), (1, false), (3, true)]
    | 3 => [(0, true), (1, false), (3, false)]
    | 4 => [(0, false), (4, true), (5, true)]
    | 5 => [(0, false), (4, true), (5, false)]
    | 6 => [(0, false), (4, false), (6, true)]
    | 7 => [(0, false), (4, false), (6, false)]
    | _ => []

def updateReplacementIndex (accessed : Fin n) (b : Tree) :
    Except Failure Tree :=
  if n = 4 ∨ n = 8 then
    .ok ((touched n accessed).foldl (fun b bit =>
      Function.update b bit.1 bit.2) b)
  else .error .error

def getReplacementIndex (blocks : Blocks n) (b : Tree) :
    Except Failure (Fin n × Tree) :=
  match firstInvalid blocks with
  | some way => (updateReplacementIndex way b).map fun b => (way, b)
  | none =>
      match pointed n b with
      | none => .error .error
      | some index =>
          if bound : index < n then
            if isValidReplacement blocks ⟨index, bound⟩ then
              (updateReplacementIndex (⟨index, bound⟩ : Fin n) b).map fun b =>
                (⟨index, bound⟩, b)
            else .error .error
          else .error .error

end Plru

/-- `CacheSetPLRU`. -/
def plru (n : Nat) : Policy n where
  State := Tree
  start := fun _ => false
  getReplacementIndex := fun _ _ blocks b => Plru.getReplacementIndex blocks b
  updateReplacementIndex := Plru.updateReplacementIndex

/-! ## Re-reference interval prediction -/

structure SrripState (n : Nat) where
  bits : Fin n → Nat
  pointer : Pointer n

namespace Srrip

/-- `m_rrip_max`, in eight bits. -/
def rripMax (numBits : Nat) : Nat := (2 ^ numBits - 1) % 256

/-- `m_rrip_insert`. -/
def rripInsert (numBits : Nat) : Nat := (rripMax numBits + 255) % 256

def setBits (way : Fin n) (value : Nat) (state : SrripState n) : SrripState n :=
  { state with bits := Function.update state.bits way value }

def advance (state : SrripState n) : SrripState n :=
  { state with pointer := state.pointer.next }

/-- `Increment all RRIP counters until one hits RRIP_MAX`. -/
def age (max : Nat) (state : SrripState n) : SrripState n :=
  { state with
    bits := fun way =>
      if state.bits way < max then state.bits way + 1 else state.bits way }

/-- The way is taken. -/
def choose (numBits : Nat) (blocks : Blocks n) (state : SrripState n) :
    Except Failure (Fin n × SrripState n) :=
  let index := state.pointer.way
  if isValidReplacement blocks index then
    .ok (index, setBits index (rripInsert numBits) (advance state))
  else .error .error

/-- The inner loop with the steps that are left, which ends with a result or
with the attempts and the state; after a rejected query the pointer stays. -/
def scan (numBits numAttempts : Nat) (queries : Queries n)
    (blocks : Blocks n) : Nat → Nat → SrripState n →
      Except Failure (Fin n × SrripState n) ⊕ (Nat × SrripState n)
  | 0, attempt, state => .inr (attempt, state)
  | steps + 1, attempt, state =>
      if state.bits state.pointer.way ≥ rripMax numBits then
        if attempt + 1 < numAttempts ∧
            queries attempt state.pointer.way = true then
          scan numBits numAttempts queries blocks steps (attempt + 1)
            (setBits state.pointer.way 0 state)
        else .inl (choose numBits blocks state)
      else
        scan numBits numAttempts queries blocks steps attempt (advance state)

/-- The outer loop with the rounds that are left. -/
def search (numBits numAttempts : Nat) (queries : Queries n)
    (blocks : Blocks n) : Nat → Nat → SrripState n →
      Except Failure (Fin n × SrripState n)
  | 0, _, _ => .error .error
  | rounds + 1, attempt, state =>
      match scan numBits numAttempts queries blocks n attempt state with
      | .inl result => result
      | .inr (attempt, state) =>
          search numBits numAttempts queries blocks rounds attempt
            (age (rripMax numBits) state)

def getReplacementIndex (numBits numAttempts : Nat) (queries : Queries n)
    (blocks : Blocks n) (state : SrripState n) :
    Except Failure (Fin n × SrripState n) :=
  match firstInvalid blocks with
  | some way => .ok (way, setBits way (rripInsert numBits) state)
  | none =>
      search numBits numAttempts queries blocks (rripMax numBits + 1) 0 state

def updateReplacementIndex (accessed : Fin n) (state : SrripState n) :
    Except Failure (SrripState n) := do
  increment n (state.bits accessed)
  return setBits accessed (state.bits accessed - 1) state

end Srrip

/-- `CacheSetSRRIP`. -/
def srrip (n : Nat) [NeZero n] (numBits numAttempts : Nat) : Policy n where
  State := SrripState n
  start := ⟨fun _ => Srrip.rripInsert numBits, Pointer.start⟩
  getReplacementIndex := fun _ queries blocks state =>
    Srrip.getReplacementIndex numBits numAttempts queries blocks state
  updateReplacementIndex := Srrip.updateReplacementIndex

/-! ## Random -/

namespace RandomPolicy

/-- The seed that `Random::next` leaves. -/
def nextSeed (seed : Nat) : Nat := (seed * 1103515245 + 12345) % 2 ^ 32

/-- What `Random::next` returns. -/
def value (seed : Nat) : Nat := nextSeed seed / 65536 % 32768

def getReplacementIndex (blocks : Blocks n) :
    Nat → Nat → Except Failure (Fin n × Nat)
  | 0, _ => .error .fuel
  | fuel + 1, seed =>
      match firstInvalid blocks with
      | some way => .ok (way, seed)
      | none =>
          if bound : 0 < n then
            let index : Fin n := ⟨value seed % n, Nat.mod_lt _ bound⟩
            if isValidReplacement blocks index then
              .ok (index, nextSeed seed)
            else getReplacementIndex blocks fuel (nextSeed seed)
          else .error .error

end RandomPolicy

/-- `CacheSetRandom`; the seed is the time. -/
def random (n : Nat) (seed : Nat) : Policy n where
  State := Nat
  start := seed
  getReplacementIndex := fun fuel _ blocks seed =>
    RandomPolicy.getReplacementIndex blocks fuel seed
  updateReplacementIndex := fun _ seed => .ok seed

/-! ## Runs of a set -/

/-- `CacheSet`. -/
structure CacheSet (policy : Policy n) where
  state : policy.State
  blocks : Blocks n

namespace CacheSet

variable {policy : Policy n}

def start (policy : Policy n) : CacheSet policy where
  state := policy.start
  blocks := fun _ => Block.empty

def setBlock (set : CacheSet policy) (way : Fin n) (block : Block) :
    CacheSet policy :=
  { set with blocks := Function.update set.blocks way block }

/-- An access of a way, with the state of the policy before it. -/
structure Access (policy : Policy n) where
  before : policy.State
  way : Fin n

/-- A run of a set with its accesses, the last one first. -/
inductive Run (policy : Policy n) :
    CacheSet policy → List (Access policy) → Prop
  | start : Run policy (CacheSet.start policy) []
  /-- `insert`. -/
  | fill {set accesses fuel queries way state block} :
      Run policy set accesses →
      policy.getReplacementIndex fuel queries set.blocks set.state =
        .ok (way, state) →
      block.valid = true →
      Run policy (({ set with state := state } : CacheSet policy).setBlock
        way block) (⟨set.state, way⟩ :: accesses)
  /-- `read_line` or `write_line`. -/
  | hit {set accesses way state} :
      Run policy set accesses →
      policy.updateReplacementIndex way set.state = .ok state →
      Run policy { set with state := state } (⟨set.state, way⟩ :: accesses)
  | invalidate {set accesses} (way : Fin n) :
      Run policy set accesses →
      Run policy (set.setBlock way Block.empty) accesses
  /-- A line that is held changes its state. -/
  | setCState {set accesses} (way : Fin n) (cstate : CState) :
      Run policy set accesses →
      (set.blocks way).valid = true →
      Run policy (set.setBlock way ⟨true, cstate⟩) accesses

end CacheSet

end ChipletSniper.Cache
