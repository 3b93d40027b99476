import ChipletSniper.Coherence.Directory
import ChipletSniper.Library.Runs

/-!
# The last-level caches and the steps of the system

A last-level cache stands for its whole stack: `data` is the newest data of
the line in the stack, and a waiter is an operation of one of its cores.
-/

namespace ChipletSniper.Coherence

open Relation Library

def CacheState.readable : CacheState → Bool
  | .modified | .shared | .exclusive => true
  | .invalid | .sharedUpgrading => false

def CacheState.writable : CacheState → Bool
  | .modified => true
  | .invalid | .shared | .sharedUpgrading | .exclusive => false

namespace System

variable {n : Nat} {Line : Type}

def setCache (system : System n Line) (core : Fin n) (cache : Llc Line) :
    System n Line :=
  { system with caches := Function.update system.caches core cache }

def sendToDirectory (system : System n Line) (sender : Fin n)
    (msg : ToDirectory Line) : System n Line :=
  { system with
    toDirectory := Function.update system.toDirectory sender
      (system.toDirectory sender ++ [msg]) }

/-- A core loads or stores in its stack, which has the line in a permissible
state. -/
def perform (system : System n Line) (core : Fin n) (op : MemOp Line) :
    System n Line :=
  match op with
  | .read => system
  | .readEx =>
      system.setCache core { system.caches core with cstate := .modified }
  | .write line =>
      { system.setCache core { system.caches core with
          cstate := .modified, data := some line } with lastWrite := line }

def processUpgradeReqToDirectory (system : System n Line) (core : Fin n) :
    System n Line :=
  (system.setCache core
    { system.caches core with cstate := .sharedUpgrading }).sendToDirectory
      core .upgradeReq

def processExReqToDirectory (system : System n Line) (core : Fin n) :
    Except Failure (System n Line) := do
  check ((system.caches core).cstate = .invalid) .notInvalid
  return system.sendToDirectory core .exReq

def processShReqToDirectory (system : System n Line) (core : Fin n) :
    System n Line :=
  system.sendToDirectory core .shReq

def initiateDirectoryAccess (system : System n Line) (core : Fin n)
    (op : MemOp Line) : Except Failure (System n Line) :=
  let cache := system.caches core
  let waiting := system.setCache core
    { cache with waiters := cache.waiters ++ [op] }
  if cache.waiters = [] then
    if op.exclusive then
      if cache.cstate = .shared then
        .ok (waiting.processUpgradeReqToDirectory core)
      else waiting.processExReqToDirectory core
    else .ok (waiting.processShReqToDirectory core)
  else .ok waiting

/-- The last-level cache in `processShmemReqFromPrevCache`. -/
def processShmemReqFromPrevCache (system : System n Line) (core : Fin n)
    (op : MemOp Line) : Except Failure (System n Line) :=
  let cstate := (system.caches core).cstate
  if op.exclusive then
    if cstate.writable ∨ cstate = .exclusive then .ok (system.perform core op)
    else system.initiateDirectoryAccess core op
  else if cstate.readable then .ok (system.perform core op)
  else system.initiateDirectoryAccess core op

/-- The messages that `insertCacheBlock` sends for the line that it evicts. -/
def evict (system : System n Line) (core : Fin n) : System n Line :=
  let cache := system.caches core
  (system.setCache core
    { cache with cstate := .invalid, data := none }).sendToDirectory core
      (if cache.cstate = .modified then .flushRep cache.data else .invRep)

/-- The loop over the waiters.  A waiter whose operation is permissible runs
with the lock of the stack; a waiter that needs more than a shared copy asks
for an upgrade. -/
def wakeUp (core : Fin n) : List (MemOp Line) → System n Line →
    Except Failure (System n Line)
  | [], system => .ok system
  | op :: rest, system =>
      let cache := system.caches core
      if op.exclusive ∧ cache.cstate = .shared then
        .ok (system.processUpgradeReqToDirectory core)
      else if op.exclusive ∧
          ¬ (cache.cstate.writable ∨ cache.cstate = .exclusive) then
        .error .notPermissible
      else if ¬ op.exclusive ∧ ¬ cache.cstate.readable then
        .error .notPermissible
      else
        let done := system.perform core op
        wakeUp core rest (done.setCache core
          { done.caches core with waiters := rest })

/-- `insertCacheBlock` for a reply of the directory. -/
def insertCacheBlock (system : System n Line) (core : Fin n)
    (cstate : CacheState) (data : Data Line) :
    Except Failure (System n Line) := do
  check ((system.caches core).cstate = .invalid) .alreadyPresent
  return system.setCache core
    { system.caches core with cstate := cstate, data := data }

def processUpgradeRepFromDramDirectory (system : System n Line)
    (core : Fin n) : Except Failure (System n Line) := do
  check ((system.caches core).cstate = .sharedUpgrading) .notUpgrading
  return system.setCache core
    { system.caches core with cstate := .modified }

def processInvReqFromDramDirectory (system : System n Line) (core : Fin n) :
    Except Failure (System n Line) :=
  let cache := system.caches core
  if cache.cstate = .invalid then .ok system
  else do
    check (cache.cstate ≠ .modified) .dataLost
    return (system.setCache core
      { cache with cstate := .invalid, data := none }).sendToDirectory core
        .invRep

def processFlushReqFromDramDirectory (system : System n Line)
    (core : Fin n) : System n Line :=
  let cache := system.caches core
  if cache.cstate = .invalid then system
  else
    (system.setCache core
      { cache with cstate := .invalid, data := none }).sendToDirectory core
        (.flushRep cache.data)

/-- The buffer of the reply is written by `updateCacheBlock`, which is not
called for a line that is being upgraded. -/
def processWbReqFromDramDirectory (system : System n Line) (core : Fin n) :
    System n Line :=
  let cache := system.caches core
  if cache.cstate = .invalid then system
  else if cache.cstate = .sharedUpgrading then
    system.sendToDirectory core (.wbRep none)
  else
    (system.setCache core
      { cache with cstate := .shared }).sendToDirectory core
        (.wbRep cache.data)

def handleMsgFromDramDirectory (system : System n Line) (core : Fin n) :
    ToCache Line → Except Failure (System n Line)
  | .exRep data => do
      check ((system.caches core).waiters ≠ []) .noWaiter
      let system ← system.insertCacheBlock core .exclusive data
      system.wakeUp core (system.caches core).waiters
  | .shRep data => do
      check ((system.caches core).waiters ≠ []) .noWaiter
      let system ← system.insertCacheBlock core .shared data
      system.wakeUp core (system.caches core).waiters
  | .upgradeRep => do
      check ((system.caches core).waiters ≠ []) .noWaiter
      let system ← system.processUpgradeRepFromDramDirectory core
      system.wakeUp core (system.caches core).waiters
  | .invReq => system.processInvReqFromDramDirectory core
  | .flushReq => .ok (system.processFlushReqFromDramDirectory core)
  | .wbReq => .ok (system.processWbReqFromDramDirectory core)

/-! ## Steps -/

/-- `handleMsgFromTagDirectory` of the DRAM. -/
def handleMsgFromTagDirectory (system : System n Line) :
    ToDram Line → System n Line
  | .readReq => { system with fromDram := system.fromDram ++ [system.dram] }
  | .writeReq data => { system with dram := data }

inductive Action (n : Nat) (Line : Type) where
  /-- A core loads or stores through its last-level cache. -/
  | access (core : Fin n) (op : MemOp Line)
  /-- A cache evicts the line. -/
  | evict (core : Fin n)
  /-- The directory replaces the entry of the line. -/
  | replace (requester : Fin n) (random : Nat)
  /-- A cache receives a message. -/
  | toCache (core : Fin n)
  /-- The directory receives a message of a cache. -/
  | toDirectory (core : Fin n) (random : Nat)
  /-- The DRAM receives a message. -/
  | toDram
  /-- The directory receives a message of the DRAM. -/
  | fromDram (random : Nat)

/-- `none` when the step is not possible. -/
def step (config : Config n) (system : System n Line) :
    Action n Line → Option (Except Failure (System n Line))
  | .access core op => some (system.processShmemReqFromPrevCache core op)
  | .evict core =>
      match (system.caches core).cstate with
      | .shared | .exclusive | .modified => some (.ok (system.evict core))
      | .invalid | .sharedUpgrading => none
  | .replace requester random =>
      if system.queue = [] ∧ system.entry.isSome then
        some (system.processDirectoryEntryAllocationReq config random
          requester)
      else none
  | .toCache core =>
      match system.toCache core with
      | [] => none
      | msg :: rest =>
          some ({ system with
            toCache := Function.update system.toCache core
              rest }.handleMsgFromDramDirectory core msg)
  | .toDirectory core random =>
      match system.toDirectory core with
      | [] => none
      | msg :: rest =>
          some ({ system with
            toDirectory := Function.update system.toDirectory core
              rest }.handleMsgFromL2Cache config random core msg)
  | .toDram =>
      match system.toDram with
      | [] => none
      | msg :: rest =>
          some (.ok
            ({ system with toDram := rest }.handleMsgFromTagDirectory msg))
  | .fromDram random =>
      match system.fromDram with
      | [] => none
      | data :: rest =>
          some ({ system with fromDram := rest }.processDRAMReply config
            random data)

def start (initial : Line) : System n Line where
  caches := fun _ => ⟨.invalid, none, []⟩
  toCache := fun _ => []
  toDirectory := fun _ => []
  entry := none
  queue := []
  toDram := []
  fromDram := []
  dram := some initial
  lastWrite := initial
  log := []

/-- The states that are reached by steps that meet a condition. -/
def ReachedWhile (config : Config n)
    (Condition : System n Line → Action n Line → Prop) (initial : Line) :
    System n Line → Prop :=
  ReflTransGen
    (fun system next => ∃ action, Condition system action ∧
      system.step config action = some (.ok next))
    (start initial)

/-- The reachable states. -/
def Reachable (config : Config n) (initial : Line) :
    System n Line → Prop :=
  ReachedWhile config (fun _ _ => True) initial

end System

end ChipletSniper.Coherence
