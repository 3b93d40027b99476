import ChipletSniper.Library.Streams
import ChipletSniper.Sift.Format

/-!
# Requests and responses

The writer sends a request and waits for its response; the reader serves the
request and may access the memory of the traced program before it responds.
What is written up to a `flush` is sent as one piece. Enumerators are sent as
their numbers, so an operation or a lock type is any 32-bit number.
-/

namespace ChipletSniper.Sift

open Library

/-- `MemRead`. -/
def memRead : BitVec 32 := 1

/-- `MemWrite`. -/
def memWrite : BitVec 32 := 2

/-- A call of `AccessMemory`. -/
structure MemoryCall where
  lock : BitVec 32
  op : BitVec 32
  address : BitVec 64
  buffer : List Byte
  small : buffer.length < 2 ^ 32

/-- `data_size`. -/
def MemoryCall.size (call : MemoryCall) : BitVec 32 :=
  BitVec.ofNat 32 call.buffer.length

/-- `handleAccessMemoryFunc`: it changes the memory and fills the buffer. -/
structure MemoryFunction (Memory : Type*) where
  access : Memory → BitVec 32 → BitVec 32 → BitVec 64 → List Byte →
    Memory × List Byte
  length_access : ∀ {memory lock op address buffer},
    (access memory lock op address buffer).2.length = buffer.length

/-! ## The reader's side of a memory access -/

namespace Reader

/-- The bytes that `AccessMemory` writes. -/
def memoryRequest (call : MemoryCall) : List Byte :=
  (other .memoryRequest
      (if call.op = memWrite then 20 + call.size else 20)).bytes ++
    (encode 8 call.address ++ (encode 4 call.size ++ (encode 4 call.lock ++
      (encode 4 call.op ++ if call.op = memWrite then call.buffer else []))))

/-- The rest of `AccessMemory`: what it returns, and the buffer. -/
def memoryReply (call : MemoryCall) : Process (Bool × List Byte) :=
  .receive headerSize fun bytes =>
    let record := Header.ofBytes bytes
    if record.type ≠ RecordType.memoryResponse.code then
      .done (false, call.buffer)
    else
      .receive 8 fun address => .receive 4 fun _type =>
        let payload := record.size - 8 - 4
        if decode address ≠ call.address then
          .done (false, call.buffer)
        else if call.op = memRead then
          if call.size ≠ payload then
            .done (false, call.buffer)
          else
            .receive call.size.toNat fun bytes => .done (true, bytes)
        else if call.op = memWrite then
          if payload ≠ 0 then .done (false, call.buffer)
          else .done (true, call.buffer)
        else
          .done (false, call.buffer)

def accessMemory (call : MemoryCall) : Process (Bool × List Byte) :=
  .send (memoryRequest call) (memoryReply call)

end Reader

/-! ## The writer's side of a memory access -/

namespace Writer

/-- The answer to a memory request. -/
def memoryResponse (address : BitVec 64) (op : BitVec 32)
    (bytes : List Byte) : List Byte :=
  (other .memoryResponse (8 + 4 + BitVec.ofNat 32 bytes.length)).bytes ++
    (encode 8 address ++ (encode 4 op ++ bytes))

variable {Memory : Type*}

/-- `handleMemoryRequest` after the fixed fields, with the size of the payload
that follows. -/
def answerRequest (function : Option (MemoryFunction Memory))
    (memory : Memory) (payload : BitVec 32) (address : BitVec 64)
    (count lock op : BitVec 32) : Process Memory :=
  match function with
  | none => .done memory
  | some function =>
      if op = memRead then
        if payload ≠ 0 then .done memory
        else if count = 0 then .done memory
        else
          let (after, bytes) := function.access memory lock op address
            (List.replicate count.toNat 0)
          .send (memoryResponse address op bytes) (.done after)
      else if op = memWrite then
        if payload = 0 then .done memory
        else if payload ≠ count then .done memory
        else
          .receive payload.toNat fun bytes =>
            let (after, _) := function.access memory lock op address bytes
            .send (memoryResponse address op []) (.done after)
      else
        .done memory

/-- `handleMemoryRequest`, after the header of the record. -/
def handleMemoryRequest (function : Option (MemoryFunction Memory))
    (memory : Memory) (size : BitVec 32) : Process Memory :=
  if size.toNat < 20 then
    .done memory
  else
    .receive 8 fun address => .receive 4 fun count => .receive 4 fun lock =>
      .receive 4 fun op =>
        answerRequest function memory (size - 20) (decode address)
          (decode count) (decode lock) (decode op)

end Writer

/-! ## Requests -/

/-- A call of `Syscall`, `Sync`, `Magic` or `Emulate`. `Syscall` may first send
the physical page of an argument. -/
inductive Request where
  | syscall (page : Option (BitVec 64 × BitVec 64)) (number : BitVec 16)
      (data : List Byte) (small : data.length < 2 ^ 32)
  | sync
  | magic (a b c : BitVec 64)
  | emulate (type : BitVec 16) (request : BitVec 64)

/-- What a call returns: a return code, a `Mode`, a result, or whether the
request was handled and the `EmuReply`. -/
inductive Answer where
  | syscall (code : BitVec 64)
  | sync (mode : BitVec 32)
  | magic (result : BitVec 64)
  | emulate (handled : Bool) (reply : BitVec 384)

namespace Writer

/-- The record of `send_va2pa`. -/
def pageRecord (page : BitVec 64 × BitVec 64) : List Byte :=
  (other .logical2Physical 16).bytes ++ (encode 8 page.1 ++ encode 8 page.2)

/-- The bytes of the request. -/
def request : Request → List Byte
  | .syscall page number data _ =>
      (page.elim [] pageRecord) ++
        ((other .syscallRequest (2 + BitVec.ofNat 32 data.length)).bytes ++
          (encode 2 number ++ data))
  | .sync => (other .sync 0).bytes
  | .magic a b c =>
      (other .magicInstruction 24).bytes ++
        (encode 8 a ++ (encode 8 b ++ encode 8 c))
  | .emulate type request =>
      (other .emu 10).bytes ++ (encode 2 type ++ encode 8 request)

variable {Memory : Type*}

/-- A record whose first byte is not zero while the writer waits. -/
def malformed : Request → Process (Memory ⊕ Answer)
  | .syscall .. => .abort
  | .sync => .done (.inr (.sync 0))
  | .magic .. => .abort
  | .emulate .. => .abort

/-- A record that is not a memory request while the writer waits. -/
def response (memory : Memory) (type : Byte) (size : BitVec 32) :
    Request → Process (Memory ⊕ Answer)
  | .syscall .. =>
      if type = RecordType.syscallResponse.code then
        if size ≠ 8 then .done (.inr (.syscall 1))
        else .receive 8 fun bytes => .done (.inr (.syscall (decode bytes)))
      else
        .done (.inl memory)
  | .sync =>
      if type = RecordType.syncResponse.code then
        if size ≠ 4 then .done (.inr (.sync 0))
        else .receive 4 fun bytes => .done (.inr (.sync (decode bytes)))
      else
        .done (.inr (.sync 0))
  | .magic .. =>
      if type = RecordType.magicInstructionResponse.code then
        if size ≠ 8 then .abort
        else .receive 8 fun bytes => .done (.inr (.magic (decode bytes)))
      else
        .abort
  | .emulate .. =>
      if type = RecordType.emuResponse.code then
        if 49 < size.toNat then .abort
        else
          .receive 1 fun handled => .receive (size.toNat - 1) fun reply =>
            .done (.inr (.emulate (handled != [0]) (decode reply)))
      else
        .done (.inr (.emulate false 0))

/-- One round of the loop that waits for the response. -/
def wait (function : Option (MemoryFunction Memory)) (request : Request)
    (memory : Memory) : Process (Memory ⊕ Answer) :=
  .receive headerSize fun bytes =>
    let record := Header.ofBytes bytes
    if record.zero ≠ 0 then
      malformed request
    else if record.type = RecordType.memoryRequest.code then
      (handleMemoryRequest function memory record.size).map .inl
    else
      response memory record.type record.size request

/-- The call: the request is sent and the loop entered. -/
def call (request : Request) (memory : Memory) :
    Process (Memory ⊕ Answer) :=
  .send (Writer.request request) (.done (.inl memory))

end Writer

/-! ## Serving a request -/

/-- What a callback of the reader does: memory accesses, each of which may
depend on the ones before it, and a value. -/
inductive Service (Value : Type) where
  | respond (value : Value)
  | access (call : MemoryCall) (next : Bool × List Byte → Service Value)

def Service.map {Value Other : Type} (change : Value → Other) :
    Service Value → Service Other
  | .respond value => .respond (change value)
  | .access call next => .access call fun result => (next result).map change

/-- The callbacks of the reader; only that for system calls must be set. -/
structure Callbacks where
  syscall : BitVec 16 → List Byte → Service (BitVec 64)
  count : Option (BitVec 32 → Service (BitVec 32))
  magic : Option (BitVec 64 → BitVec 64 → BitVec 64 → Service (BitVec 64))
  emulate : Option (BitVec 16 → BitVec 64 → Service (Bool × BitVec 384))

namespace Reader

variable (callbacks : Callbacks)

def handleSyscall (number : BitVec 16) (data : List Byte) : Service Answer :=
  (callbacks.syscall number data).map .syscall

/-- Without a callback the mode is unknown. -/
def handleSync : Service Answer :=
  match callbacks.count with
  | none => .respond (.sync 0)
  | some count => (count 0).map .sync

/-- Without a callback the first register is not modified. -/
def handleMagic (a b c : BitVec 64) : Service Answer :=
  match callbacks.magic with
  | none => .respond (.magic a)
  | some magic => (magic a b c).map .magic

def handleEmu (type : BitVec 16) (request : BitVec 64) : Service Answer :=
  match callbacks.emulate with
  | none => .respond (.emulate false 0)
  | some emulate =>
      (emulate type request).map fun (handled, reply) =>
        .emulate handled reply

/-- The record with which the reader responds. -/
def response : Answer → List Byte
  | .syscall code => (other .syscallResponse 8).bytes ++ encode 8 code
  | .sync mode => (other .syncResponse 4).bytes ++ encode 4 mode
  | .magic result =>
      (other .magicInstructionResponse 8).bytes ++ encode 8 result
  | .emulate handled reply =>
      (other .emuResponse 49).bytes ++
        ((if handled then 1 else 0) :: encode 48 reply)

/-- A callback, and then its response. -/
def serve : Service Answer → Process (Unit ⊕ Answer)
  | .respond answer => .send (response answer) (.done (.inr answer))
  | .access call next =>
      (accessMemory call).bind fun result => serve (next result)

/-- `Read` after the header of a record that is not an instruction, up to the
response. A record that asks for none is skipped. -/
def readRecord (type : Byte) (size : BitVec 32) : Process (Unit ⊕ Answer) :=
  if type = RecordType.syscallRequest.code then
    if size.toNat ≤ 2 then .abort
    else
      .receive 2 fun number => .receive (size - 2).toNat fun data =>
        serve (handleSyscall callbacks (decode number) data)
  else if type = RecordType.sync.code then
    if size ≠ 0 then .abort
    else serve (handleSync callbacks)
  else if type = RecordType.magicInstruction.code then
    if size ≠ 24 then .abort
    else
      .receive 8 fun a => .receive 8 fun b => .receive 8 fun c =>
        serve (handleMagic callbacks (decode a) (decode b) (decode c))
  else if type = RecordType.emu.code then
    if 10 < size.toNat then .abort
    else
      .receive 2 fun type => .receive (size.toNat - 2) fun request =>
        serve (handleEmu callbacks (decode type) (decode request))
  else
    .receive size.toNat fun _ => .done (.inl ())

def read (_ : Unit) : Process (Unit ⊕ Answer) :=
  .receive headerSize fun bytes =>
    let record := Header.ofBytes bytes
    readRecord callbacks record.type record.size

end Reader

end ChipletSniper.Sift
