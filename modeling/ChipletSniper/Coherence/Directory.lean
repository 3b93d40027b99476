import Mathlib.Data.List.FinRange
import Mathlib.Logic.Function.Basic

/-!
# The directory controller

One cache line, its home directory with entries of the kinds `full_map` and
`limited_no_broadcast`, the last-level caches that may hold it, the DRAM and
the messages in flight.  This module has the handlers of the directory; there
is no NUCA cache.
-/

namespace ChipletSniper.Coherence

/-! ## States and messages -/

inductive CacheState where
  | invalid
  | shared
  | sharedUpgrading
  | exclusive
  | modified
deriving DecidableEq, Repr

inductive DirectoryState where
  | uncached
  | shared
  | modified
  | exclusive
deriving DecidableEq, Repr

inductive CoherencyProtocol where
  | msi
  | mesi
  | mesif
deriving DecidableEq, Repr

/-- The contents of a buffer; `none` is a buffer that was never written or
has been deleted. -/
abbrev Data (Line : Type) := Option Line

/-- Messages from the directory to a cache. -/
inductive ToCache (Line : Type) where
  | exRep (data : Data Line)
  | shRep (data : Data Line)
  | upgradeRep
  | invReq
  | flushReq
  | wbReq
deriving DecidableEq, Repr

/-- Messages from a cache to the directory. -/
inductive ToDirectory (Line : Type) where
  | exReq
  | shReq
  | upgradeReq
  | invRep
  | flushRep (data : Data Line)
  | wbRep (data : Data Line)
deriving DecidableEq, Repr

/-- Messages from the directory to the DRAM. -/
inductive ToDram (Line : Type) where
  | readReq
  | writeReq (data : Data Line)
deriving DecidableEq, Repr

/-- The requests that wait in the queue of the directory. -/
inductive ReqType where
  | exReq
  | shReq
  | upgradeReq
  | nullifyReq
deriving DecidableEq, Repr

inductive RepType where
  | exRep
  | shRep
  | upgradeRep
deriving DecidableEq, Repr

structure ShmemReq (n : Nat) (Line : Type) where
  msgType : ReqType
  requester : Fin n
  waitForData : Bool
  forwardingFrom : Option (Fin n)
  dataBuf : Option (Data Line)

/-- The constructor of `ShmemReq`. -/
def ShmemReq.new {n : Nat} {Line : Type} (msgType : ReqType)
    (requester : Fin n) : ShmemReq n Line :=
  ⟨msgType, requester, false, none, none⟩

structure DirectoryEntry (n : Nat) where
  dstate : DirectoryState
  sharers : Fin n → Bool
  owner : Option (Fin n)
  forwarder : Option (Fin n)

/-- `maxHwSharers` is the number of caches for `full_map`.  The constructor of
an entry leaves the forwarder uninitialised. -/
structure Config (n : Nat) where
  protocol : CoherencyProtocol
  maxHwSharers : Nat
  uninitialised : Option (Fin n)

def Config.FullMap {n : Nat} (config : Config n) : Prop :=
  config.maxHwSharers = n

/-- An operation of a core that waits for the directory. -/
inductive MemOp (Line : Type) where
  | read
  | readEx
  | write (line : Line)
deriving DecidableEq, Repr

def MemOp.exclusive {Line : Type} : MemOp Line → Bool
  | .read => false
  | .readEx | .write _ => true

/-- The last-level cache of one stack: the state and the data of the line and
the waiters for the directory. -/
structure Llc (Line : Type) where
  cstate : CacheState
  data : Data Line
  waiters : List (MemOp Line)
deriving DecidableEq, Repr

/-- History: what happens to the requests of the caches at the directory. -/
inductive Event (n : Nat) where
  | received (requester : Fin n) (msgType : ReqType)
  | replied (receiver : Fin n) (repType : RepType)
  | dequeued (requester : Fin n) (msgType : ReqType)
deriving DecidableEq

/-- The whole system.  The last two fields are history. -/
structure System (n : Nat) (Line : Type) where
  caches : Fin n → Llc Line
  toCache : Fin n → List (ToCache Line)
  toDirectory : Fin n → List (ToDirectory Line)
  entry : Option (DirectoryEntry n)
  queue : List (ShmemReq n Line)
  toDram : List (ToDram Line)
  fromDram : List (Data Line)
  dram : Data Line
  lastWrite : Line
  log : List (Event n)

/-- The assertions and errors of the modelled functions. -/
inductive Failure where
  | noRequest
  | noEntry
  | noOwner
  | unrecognized
  | cachedData
  | alreadySharer
  | notSharer
  | sharerNotAdded
  | ownerRequests
  | sharersOfUncached
  | notOwner
  | ooops
  | notShared
  | unexpectedState
  | shouldNotReach
  | noWaiter
  | alreadyPresent
  | notUpgrading
  | dataLost
  | notInvalid
  | notPermissible
deriving DecidableEq, Repr

/-- An assertion. -/
def check (condition : Prop) [Decidable condition] (failure : Failure) :
    Except Failure Unit :=
  if condition then .ok () else .error failure

theorem check_bind {α : Type} {condition : Prop} [Decidable condition]
    {failure : Failure} {next : Unit → Except Failure α}
    (holds : condition) :
    (check condition failure >>= next) = next () := by
  rw [check, if_pos holds]
  rfl

theorem ok_bind {α β : Type} (value : α) (next : α → Except Failure β) :
    (Except.ok value >>= next) = next value :=
  rfl

/-! ## Directory entries -/

namespace DirectoryEntry

variable {n : Nat}

def fresh (config : Config n) : DirectoryEntry n where
  dstate := .uncached
  sharers := fun _ => false
  owner := none
  forwarder := config.uninitialised

def getSharersList (entry : DirectoryEntry n) : List (Fin n) :=
  (List.finRange n).filter entry.sharers

def getNumSharers (entry : DirectoryEntry n) : Nat :=
  entry.getSharersList.length

/-- `none` when there is no room. -/
def addSharer (entry : DirectoryEntry n) (sharer : Fin n)
    (maxHwSharers : Nat) : Except Failure (Option (DirectoryEntry n)) := do
  check (entry.sharers sharer = false) .alreadySharer
  if maxHwSharers ≤ entry.getNumSharers then return none
  else
    return some { entry with
      sharers := Function.update entry.sharers sharer true }

def removeSharer (entry : DirectoryEntry n) (sharer : Fin n) :
    Except Failure (DirectoryEntry n) := do
  check (entry.sharers sharer = true) .notSharer
  return { entry with sharers := Function.update entry.sharers sharer false }

def setOwner (entry : DirectoryEntry n) (owner : Fin n) :
    Except Failure (DirectoryEntry n) := do
  check (entry.sharers owner = true) .notSharer
  return { entry with owner := some owner }

/-- `getOneSharer` for a random number. -/
def getOneSharer (entry : DirectoryEntry n) (random : Nat) :
    Option (Fin n) :=
  entry.getSharersList[random % entry.getNumSharers]?

end DirectoryEntry

/-! ## Sending -/

def ToCache.repType {Line : Type} : ToCache Line → Option RepType
  | .exRep _ => some .exRep
  | .shRep _ => some .shRep
  | .upgradeRep => some .upgradeRep
  | .invReq | .flushReq | .wbReq => none

namespace System

variable {n : Nat} {Line : Type}

def sendMsg (system : System n Line) (msg : ToCache Line)
    (receiver : Fin n) : System n Line :=
  { system with
    toCache := Function.update system.toCache receiver
      (system.toCache receiver ++ [msg])
    log := system.log ++ (msg.repType.map (.replied receiver)).toList }

/-- A message to each cache of a list. -/
def sendEach (system : System n Line) (msg : Fin n → ToCache Line)
    (receivers : List (Fin n)) : System n Line :=
  receivers.foldl (fun system receiver => system.sendMsg (msg receiver) receiver)
    system

def sendDataToDram (system : System n Line) (data : Data Line) :
    System n Line :=
  { system with toDram := system.toDram ++ [.writeReq data] }

/-- Changing the request at the head of the queue. -/
def updateHead (system : System n Line)
    (change : ShmemReq n Line → ShmemReq n Line) : System n Line :=
  { system with queue := system.queue.modifyHead change }

def setEntry (system : System n Line) (entry : DirectoryEntry n) :
    System n Line :=
  { system with entry := some entry }

/-- `getDirectoryEntry`, allocating an entry if there is none. -/
def allocate (config : Config n) (system : System n Line) :
    DirectoryEntry n :=
  system.entry.getD (DirectoryEntry.fresh config)

/-! ## Serving the request at the head of the queue

The functions return `true` where the source calls
`processNextReqFromL2Cache`, which is the last thing that they do. -/

def retrieveDataAndSendToL2Cache (config : Config n)
    (system : System n Line) (reply : Data Line → ToCache Line)
    (receiver : Fin n) (cachedDataBuf : Option (Data Line)) :
    Except Failure (System n Line × Bool) :=
  match system.entry, system.queue, cachedDataBuf with
  | none, _, _ => .error .noEntry
  | some entry, _, some data =>
      .ok ((system.setEntry { entry with forwarder := some receiver }).sendMsg
        (reply data) receiver, true)
  | some _, [], none => .error .noRequest
  | some entry, req :: _, none =>
      match entry.forwarder with
      | some forwarder =>
          if config.protocol = .mesif ∧ req.forwardingFrom = none ∧
              entry.dstate = .shared then
            .ok ((system.updateHead fun req =>
              { req with forwardingFrom := some forwarder }).sendMsg .wbReq
                forwarder, false)
          else
            .ok ({ system.updateHead fun req =>
              { req with waitForData := true } with
                toDram := system.toDram ++ [.readReq] }, false)
      | none =>
          .ok ({ system.updateHead fun req =>
            { req with waitForData := true } with
              toDram := system.toDram ++ [.readReq] }, false)

/-- A message to the owner of the line. -/
def sendToOwner (system : System n Line) (entry : DirectoryEntry n)
    (msg : ToCache Line) : Except Failure (System n Line × Bool) :=
  match entry.owner with
  | none => .error .noOwner
  | some owner => .ok (system.sendMsg msg owner, false)

def processNullifyReq (system : System n Line) :
    Except Failure (System n Line × Bool) :=
  match system.entry with
  | none => .error .noEntry
  | some entry =>
      match entry.dstate with
      | .exclusive | .modified => system.sendToOwner entry .flushReq
      | .shared =>
          .ok (system.sendEach (fun _ => .invReq) entry.getSharersList, false)
      | .uncached => .ok ({ system with entry := none }, true)

def processExReqFromL2Cache (config : Config n) (system : System n Line)
    (requester : Fin n) (cachedDataBuf : Option (Data Line)) :
    Except Failure (System n Line × Bool) := do
  let entry := system.allocate config
  let system := system.setEntry entry
  match entry.dstate with
  | .exclusive | .modified =>
      check (cachedDataBuf.isNone) .cachedData
      system.sendToOwner entry .flushReq
  | .shared =>
      check (cachedDataBuf.isNone) .cachedData
      return (system.sendEach (fun _ => .invReq) entry.getSharersList, false)
  | .uncached =>
      match ← entry.addSharer requester config.maxHwSharers with
      | none => .error .sharerNotAdded
      | some entry =>
          let entry ← entry.setOwner requester
          retrieveDataAndSendToL2Cache config
            (system.setEntry { entry with dstate := .modified }) .exRep
            requester cachedDataBuf

def processShReqFromL2Cache (config : Config n) (random : Nat)
    (system : System n Line) (requester : Fin n)
    (cachedDataBuf : Option (Data Line)) :
    Except Failure (System n Line × Bool) := do
  let entry := system.allocate config
  let system := system.setEntry entry
  match entry.dstate with
  | .exclusive =>
      check (entry.owner ≠ some requester) .ownerRequests
      check (cachedDataBuf.isNone) .cachedData
      system.sendToOwner entry .wbReq
  | .modified =>
      check (cachedDataBuf.isNone) .cachedData
      system.sendToOwner entry .wbReq
  | .shared =>
      if entry.sharers requester then
        retrieveDataAndSendToL2Cache config system .shRep requester
          cachedDataBuf
      else
        match ← entry.addSharer requester config.maxHwSharers with
        | none =>
            match entry.getOneSharer random with
            | none => .error .notSharer
            | some sharer => return (system.sendMsg .invReq sharer, false)
        | some entry =>
            retrieveDataAndSendToL2Cache config (system.setEntry entry) .shRep
              requester cachedDataBuf
  | .uncached =>
      match ← entry.addSharer requester config.maxHwSharers with
      | none => .error .sharerNotAdded
      | some entry =>
          let entry ← entry.setOwner requester
          if config.protocol = .msi then
            retrieveDataAndSendToL2Cache config
              (system.setEntry { entry with dstate := .shared }) .shRep
              requester cachedDataBuf
          else
            retrieveDataAndSendToL2Cache config
              (system.setEntry { entry with dstate := .exclusive }) .exRep
              requester cachedDataBuf

/-- The message that an `UPGRADE_REQ` sends to a sharer: the first one in the
list is flushed if the requester has no copy. -/
def upgradeMsg (entry : DirectoryEntry n) (requester sharer : Fin n) :
    ToCache Line :=
  if entry.sharers requester = false ∧
      entry.getSharersList.head? = some sharer then .flushReq
  else .invReq

def processUpgradeReqFromL2Cache (config : Config n)
    (system : System n Line) (requester : Fin n)
    (cachedDataBuf : Option (Data Line)) :
    Except Failure (System n Line × Bool) := do
  let entry := system.allocate config
  let system := system.setEntry entry
  match entry.dstate with
  | .exclusive | .modified =>
      match entry.getSharersList with
      | [] => .error .notSharer
      | first :: _ =>
          if first = requester then do
            check (entry.owner = some requester) .notOwner
            return ((system.sendMsg .upgradeRep requester).setEntry
              { entry with dstate := .modified }, true)
          else system.sendToOwner entry .flushReq
  | .shared =>
      if entry.getSharersList = [requester] then do
        let entry ← entry.setOwner requester
        return ((system.setEntry { entry with dstate := .modified }).sendMsg
          .upgradeRep requester, true)
      else
        return (system.sendEach (upgradeMsg entry requester)
          (entry.getSharersList.filter (· ≠ requester)), false)
  | .uncached =>
      check (entry.getSharersList = []) .sharersOfUncached
      match ← entry.addSharer requester config.maxHwSharers with
      | none => .error .sharerNotAdded
      | some entry =>
          let entry ← entry.setOwner requester
          retrieveDataAndSendToL2Cache config
            (system.setEntry { entry with dstate := .modified }) .exRep
            requester
            (cachedDataBuf.or (system.queue.head?.bind ShmemReq.dataBuf))

/-- A request comes to the head of the queue. -/
def serve (config : Config n) (random : Nat) (system : System n Line)
    (req : ShmemReq n Line) : Except Failure (System n Line × Bool) :=
  match req.msgType with
  | .exReq => system.processExReqFromL2Cache config req.requester none
  | .shReq => system.processShReqFromL2Cache config random req.requester none
  | .upgradeReq =>
      system.processUpgradeReqFromL2Cache config req.requester none
  | .nullifyReq => .error .unrecognized

/-- Removing the request at the head of the queue. -/
def dequeue (system : System n Line) (req : ShmemReq n Line)
    (rest : List (ShmemReq n Line)) : System n Line :=
  { system with
    queue := rest
    log := system.log ++
      if req.msgType = .nullifyReq then []
      else [.dequeued req.requester req.msgType] }

/-- The requests of the queue come to its head one after the other, as long as
they are completed at once. -/
def serveAll (config : Config n) (random : Nat) :
    List (ShmemReq n Line) → System n Line →
      Except Failure (System n Line)
  | [], system => .ok system
  | req :: rest, system => do
      let result ← system.serve config random req
      if result.2 then
        serveAll config random rest (result.1.dequeue req rest)
      else return result.1

def processNextReqFromL2Cache (config : Config n) (random : Nat)
    (system : System n Line) : Except Failure (System n Line) :=
  match system.queue with
  | [] => .error .noRequest
  | req :: rest => serveAll config random rest (system.dequeue req rest)

theorem processNextReqFromL2Cache_of_queue {config : Config n}
    {system : System n Line} {req : ShmemReq n Line}
    {rest : List (ShmemReq n Line)} (random : Nat)
    (queue : system.queue = req :: rest) :
    processNextReqFromL2Cache config random system =
      serveAll config random rest (system.dequeue req rest) := by
  rw [processNextReqFromL2Cache, queue]

/-- What follows when a request has been served. -/
def proceed (config : Config n) (random : Nat)
    (result : System n Line × Bool) : Except Failure (System n Line) :=
  if result.2 then result.1.processNextReqFromL2Cache config random
  else .ok result.1

/-! ## Messages from the caches and from the DRAM -/

/-- A request is queued, and served if it is the only one. -/
def enqueue (config : Config n) (random : Nat) (system : System n Line)
    (sender : Fin n) (msgType : ReqType) : Except Failure (System n Line) :=
  let req := ShmemReq.new msgType sender
  let queued := { system with
    queue := system.queue ++ [req]
    log := system.log ++ [.received sender msgType] }
  if system.queue = [] then do
    let result ← queued.serve config random req
    proceed config random result
  else .ok queued

/-- The directory replaces the entry of the line; the request for the other
line has a requester of its own. -/
def processDirectoryEntryAllocationReq (config : Config n) (random : Nat)
    (system : System n Line) (requester : Fin n) :
    Except Failure (System n Line) := do
  let result ← { system with
    queue := [ShmemReq.new .nullifyReq requester] }.processNullifyReq
  proceed config random result

def processInvRepFromL2Cache (config : Config n) (random : Nat)
    (system : System n Line) (sender : Fin n) :
    Except Failure (System n Line) :=
  match system.entry with
  | none => .error .noEntry
  | some entry => do
      check (entry.dstate = .shared ∨ entry.dstate = .exclusive) .ooops
      let entry ← entry.removeSharer sender
      let entry :=
        if entry.forwarder = some sender then { entry with forwarder := none }
        else entry
      let entry :=
        if entry.getNumSharers = 0 then { entry with dstate := .uncached }
        else entry
      let system := system.setEntry entry
      match system.queue with
      | [] => return system
      | req :: _ =>
          match req.msgType with
          | .exReq =>
              if entry.dstate = .uncached then do
                let result ←
                  system.processExReqFromL2Cache config req.requester none
                proceed config random result
              else return system
          | .upgradeReq =>
              if entry.getNumSharers = 1 then
                if entry.sharers req.requester then do
                  let result ← system.processUpgradeReqFromL2Cache config
                    req.requester none
                  proceed config random result
                else return system
              else if entry.getNumSharers = 0 then do
                let result ← system.processUpgradeReqFromL2Cache config
                  req.requester none
                proceed config random result
              else return system
          | .shReq =>
              if req.waitForData then return system
              else if req.forwardingFrom.isSome ∧
                  req.forwardingFrom ≠ some sender then return system
              else do
                let result ← system.processShReqFromL2Cache config random
                  req.requester none
                proceed config random result
          | .nullifyReq =>
              if entry.dstate = .uncached then do
                let result ← system.processNullifyReq
                proceed config random result
              else return system

def processFlushRepFromL2Cache (config : Config n) (random : Nat)
    (system : System n Line) (sender : Fin n) (data : Data Line) :
    Except Failure (System n Line) :=
  match system.entry with
  | none => .error .noEntry
  | some entry => do
      let entry ← entry.removeSharer sender
      let entry := { entry with forwarder := none, owner := none }
      check (entry.getNumSharers = 0 ∨ entry.dstate = .shared) .notShared
      let entry :=
        if entry.getNumSharers = 0 then { entry with dstate := .uncached }
        else entry
      let system := system.setEntry entry
      match system.queue with
      | [] => return system.sendDataToDram data
      | req :: _ =>
          match req.msgType with
          | .exReq => do
              let result ← system.processExReqFromL2Cache config req.requester
                (some data)
              proceed config random result
          | .shReq => do
              let result ←
                (system.sendDataToDram data).processShReqFromL2Cache config
                  random req.requester (some data)
              proceed config random result
          | .upgradeReq =>
              if entry.getNumSharers = 0 then do
                let result ← system.processUpgradeReqFromL2Cache config
                  req.requester (some data)
                proceed config random result
              else
                -- the buffer is deleted with the message
                return system.updateHead fun req =>
                  { req with dataBuf := some none }
          | .nullifyReq => do
              let result ← (system.sendDataToDram data).processNullifyReq
              proceed config random result

def processWbRepFromL2Cache (config : Config n) (random : Nat)
    (system : System n Line) (sender : Fin n) (data : Data Line) :
    Except Failure (System n Line) :=
  match system.entry with
  | none => .error .noEntry
  | some entry => do
      check (entry.sharers sender = true) .notSharer
      let system :=
        system.setEntry { entry with owner := none, dstate := .shared }
      match system.queue with
      | [] => .error .shouldNotReach
      | req :: _ => do
          check (req.msgType = .shReq) .shouldNotReach
          let result ← system.processShReqFromL2Cache config random
            req.requester (some data)
          proceed config random result

def handleMsgFromL2Cache (config : Config n) (random : Nat)
    (system : System n Line) (sender : Fin n) :
    ToDirectory Line → Except Failure (System n Line)
  | .exReq => system.enqueue config random sender .exReq
  | .shReq => system.enqueue config random sender .shReq
  | .upgradeReq => system.enqueue config random sender .upgradeReq
  | .invRep => system.processInvRepFromL2Cache config random sender
  | .flushRep data =>
      system.processFlushRepFromL2Cache config random sender data
  | .wbRep data => system.processWbRepFromL2Cache config random sender data

def processDRAMReply (config : Config n) (random : Nat)
    (system : System n Line) (data : Data Line) :
    Except Failure (System n Line) :=
  match system.queue, system.entry with
  | [], _ => .error .noRequest
  | _ :: _, none => .error .noEntry
  | req :: _, some entry =>
      match req.msgType with
      | .shReq => do
          check (entry.dstate = .shared ∨ entry.dstate = .exclusive)
            .unexpectedState
          let reply : ToCache Line :=
            if entry.dstate = .exclusive then .exRep data else .shRep data
          (system.sendMsg reply req.requester).processNextReqFromL2Cache config
            random
      | .exReq => do
          check (entry.dstate = .modified) .unexpectedState
          (system.sendMsg (.exRep data) req.requester).processNextReqFromL2Cache
            config random
      | .upgradeReq =>
          (system.sendMsg (.exRep data) req.requester).processNextReqFromL2Cache
            config random
      | .nullifyReq => .error .unrecognized

end System

end ChipletSniper.Coherence
