import ChipletSniper.Library.LineStore
import ChipletSniper.Library.Streams
import ChipletSniper.Sift.TraceWriter

/-!
# Reading instruction traces

`Reader` for the same records.  The reader keeps the code that was sent by
pages, decodes each static instruction once, and remembers behind each of them
which one came next.
-/

namespace ChipletSniper.Sift.Trace

open Library Function

/-! ## What is read -/

/-- `StaticInstruction`; `next` is a place in the heap. -/
structure StaticInstruction where
  addr : BitVec 64
  size : Nat
  data : List Byte
  next : Option Nat
  deriving DecidableEq, Repr

/-- `Instruction`, with what its static instruction holds. -/
structure Instruction where
  addr : BitVec 64
  size : Nat
  data : List Byte
  addresses : List (BitVec 64)
  isBranch : Bool
  taken : Bool
  isPredicate : Bool
  executed : Bool
  isa : BitVec 32
  deriving DecidableEq, Repr

/-- The callbacks that give no answer, with their arguments. -/
inductive Callback where
  | cacheOnly (icount type : Byte) (eip address : BitVec 64)
  | output (fd : Byte) (data : List Byte)
  | routineChange (event : Byte) (eip esp callEip : BitVec 64)
  | routineAnnounce (eip : BitVec 64) (name imgname : List Byte)
      (offset : BitVec 64) (line column : BitVec 32) (filename : List Byte)
  deriving DecidableEq, Repr

/-- What one turn of the loop in `Read` comes to. -/
inductive Event where
  | skipped
  | callback (callback : Callback)
  | instruction (instruction : Instruction)
  | finished
  /-- A record that asks for a response. -/
  | request (type : Byte) (size : BitVec 32)

/-! ## The reader -/

structure Reader where
  traceHasPa : Bool := false
  lastAddress : BitVec 64 := 0
  icache : BitVec 64 → Option (Nat → Byte) := fun _ => none
  heap : List StaticInstruction := []
  scache : BitVec 64 → Option Nat := fun _ => none
  vcache : BitVec 64 → Option (BitVec 64) := fun _ => none
  lastSinst : Option Nat := none
  isa : BitVec 32 := 0

namespace Reader

/-- The loop of `staticInfoInstruction`. -/
def gather (icache : BitVec 64 → Option (Nat → Byte)) :
    Nat → BitVec 64 → Nat → Nat → Option (List Byte)
  | _, _, _, 0 => some []
  | 0, _, _, _ + 1 => none
  | fuel + 1, base, offset, size + 1 => do
      let page ← icache base
      let count := min (size + 1) (4096 - offset)
      let more ← gather icache fuel (base + 4096) 0 (size + 1 - count)
      return copyOut page offset count ++ more

def staticInfoInstruction (reader : Reader) (addr : BitVec 64) (size : Nat) :
    Option StaticInstruction := do
  let data ← gather reader.icache size (pageOf addr) (offsetOf addr) size
  return ⟨addr, size, data, none⟩

/-- The probable next instruction, if it is the one at the address. -/
def probable (reader : Reader) (addr : BitVec 64) : Option Nat := do
  let last ← reader.lastSinst
  let sinst ← reader.heap[last]?
  let next ← sinst.next
  let target ← reader.heap[next]?
  if target.addr = addr then some next else none

/-- A new static instruction is kept. -/
def remember (reader : Reader) (addr : BitVec 64)
    (sinst : StaticInstruction) : Reader :=
  { reader with
    heap := reader.heap ++ [sinst]
    scache := update reader.scache addr (some reader.heap.length) }

/-- The place of the instruction at an address, which may be a new one. -/
def findSinst (reader : Reader) (addr : BitVec 64) (size : Nat) :
    Option (Nat × Reader) :=
  match reader.probable addr with
  | some place => some (place, reader)
  | none =>
      match reader.scache addr with
      | some place => do
          let sinst ← reader.heap[place]?
          if sinst.size = size then some (place, reader) else none
      | none => do
          let sinst ← reader.staticInfoInstruction addr size
          return (reader.heap.length, reader.remember addr sinst)

def setNext (place : Nat) (sinst : StaticInstruction) : StaticInstruction :=
  if sinst.next = none then { sinst with next := some place } else sinst

/-- The last instruction remembers which one came next. -/
def link (reader : Reader) (place : Nat) : Reader :=
  match reader.lastSinst with
  | some last => { reader with
      heap := reader.heap.modify last (setNext place)
      lastSinst := some place }
  | none => { reader with lastSinst := some place }

def getStaticInstruction (reader : Reader) (addr : BitVec 64) (size : Nat) :
    Option (StaticInstruction × Reader) := do
  let (place, reader) ← reader.findSinst addr size
  let reader := reader.link place
  let sinst ← reader.heap[place]?
  return (sinst, reader)

/-- The loop that spreads the code of one instruction over pages; a new page
holds what its memory held before. -/
def spread (unset : Nat → Byte) :
    Nat → BitVec 64 → List Byte → (BitVec 64 → Option (Nat → Byte)) →
      Option (BitVec 64 → Option (Nat → Byte))
  | _, _, [], icache => some icache
  | 0, _, _ :: _, _ => none
  | fuel + 1, address, byte :: more, icache =>
      let bytes := byte :: more
      let base := pageOf address
      let offset := offsetOf address
      let count := min bytes.length (4096 - offset)
      let page := (icache base).getD unset
      spread unset fuel (base + 4096) (bytes.drop count)
        (update icache base (some (copyIn page offset (bytes.take count))))

def va2pa (reader : Reader) (va : BitVec 64) : BitVec 64 :=
  if reader.traceHasPa then
    match reader.vcache (va / 4096) with
    | none => 0
    | some pp => (pp * 4096) ||| (va &&& 4095)
  else va

/-! ## Records -/

/-- The text that a callback finds behind a pointer. -/
def text (bytes : List Byte) : List Byte := bytes.takeWhile (· ≠ 0)

def receiveText {Result : Type} (next : List Byte → Process Result) :
    Process Result :=
  .receive 2 fun length =>
    .receive (decode length : BitVec 16).toNat fun bytes => next (text bytes)

/-- The records that ask for a response. -/
def isRequest (type : Byte) : Bool :=
  [RecordType.instructionCount, .syscallRequest, .newThread, .join, .sync,
    .fork, .magicInstruction, .emu].any fun request => request.code = type

variable (unset : Nat → Byte)

/-- A record that is not an instruction, after its header. -/
def readOther (reader : Reader) (type : Byte) (size : BitVec 32) :
    Process (Reader × Event) :=
  if type = RecordType.finish.code then
    if size = 0 then .done (reader, .finished) else .abort
  else if type = RecordType.icache.code then
    if size = 8 + 4096 then
      .receive 8 fun address => .receive 4096 fun bytes =>
        let page := copyIn unset 0 bytes
        .done ({ reader with
          icache := update reader.icache (decode address) (some page) },
          .skipped)
    else .abort
  else if type = RecordType.icacheVariable.code then
    -- A smaller size would wrap around.
    if size.toNat < 8 then .abort
    else
      .receive 8 fun address => .receive (size.toNat - 8) fun bytes =>
        match spread unset bytes.length (decode address) bytes
            reader.icache with
        | some icache => .done ({ reader with icache := icache }, .skipped)
        | none => .abort
  else if type = RecordType.logical2Physical.code then
    if size = 16 then
      .receive 8 fun vp => .receive 8 fun pp =>
        .done ({ reader with
          vcache := update reader.vcache (decode vp) (some (decode pp)) },
          .skipped)
    else .abort
  else if type = RecordType.cacheOnly.code then
    if size = 18 then
      .receive 1 fun icount => .receive 1 fun type =>
        .receive 8 fun eip => .receive 8 fun address =>
          .done (reader, .callback (.cacheOnly (decode icount) (decode type)
            (decode eip) (decode address)))
    else .abort
  else if type = RecordType.output.code then
    if 1 < size.toNat then
      .receive 1 fun fd => .receive (size - 1).toNat fun bytes =>
        .done (reader, .callback (.output (decode fd) bytes))
    else .abort
  else if type = RecordType.routineChange.code then
    if size = 25 then
      .receive 1 fun event => .receive 8 fun eip => .receive 8 fun esp =>
        .receive 8 fun callEip =>
          .done (reader, .callback (.routineChange (decode event) (decode eip)
            (decode esp) (decode callEip)))
    else .abort
  else if type = RecordType.routineAnnounce.code then
    .receive 8 fun eip => receiveText fun name => receiveText fun imgname =>
      .receive 8 fun offset => .receive 4 fun line => .receive 4 fun column =>
        receiveText fun filename =>
          .done (reader, .callback (.routineAnnounce (decode eip) name imgname
            (decode offset) (decode line) (decode column) filename))
  else if type = RecordType.isaChange.code then
    if size = 4 then
      .receive 4 fun newIsa =>
        .done ({ reader with isa := decode newIsa }, .skipped)
    else .abort
  else if isRequest type then .done (reader, .request type size)
  else .receive size.toNat fun _ => .done (reader, .skipped)

def receiveAddresses {Result : Type} :
    Nat → (List (BitVec 64) → Process Result) → Process Result
  | 0, next => next []
  | count + 1, next =>
      .receive 8 fun address => receiveAddresses count fun addresses =>
        next (decode address :: addresses)

/-- The end of `Read`; there is room for two addresses. -/
def readInstruction (reader : Reader) (addr : BitVec 64) (size : BitVec 4)
    (numAddresses : BitVec 2) (isBranch taken isPredicate executed : Bool) :
    Process (Reader × Event) :=
  if numAddresses.toNat ≤ 2 then
    receiveAddresses numAddresses.toNat fun addresses =>
      let reader :=
        { reader with lastAddress := addr + BitVec.ofNat 64 size.toNat }
      match reader.getStaticInstruction addr size.toNat with
      | some (sinst, reader) => .done (reader, .instruction
          { addr := sinst.addr, size := sinst.size, data := sinst.data,
            addresses := addresses, isBranch := isBranch, taken := taken,
            isPredicate := isPredicate, executed := executed,
            isa := reader.isa })
      | none => .abort
  else .abort

/-- One turn of the loop in `Read`; the byte that it peeks at is received
first. -/
def next (reader : Reader) : Process (Reader × Event) :=
  .receive 1 fun first =>
    let byte : Byte := decode first
    if byte = 0 then
      .receive 5 fun rest =>
        let header := Header.ofBytes (first ++ rest)
        readOther unset reader header.type header.size
    else if byte &&& 0xf ≠ 0 then
      readInstruction reader reader.lastAddress (byte.extractLsb' 0 4)
        (byte.extractLsb' 4 2) (byte.getLsbD 6) (byte.getLsbD 7) false true
    else
      .receive 1 fun second => .receive 8 fun addr =>
        let flags : Byte := decode second
        readInstruction reader (decode addr) (byte.extractLsb' 4 4)
          (flags.extractLsb' 0 2) (flags.getLsbD 2) (flags.getLsbD 3)
          (flags.getLsbD 4) (flags.getLsbD 5)

/-! ## Whole traces -/

/-- The record header of the file. -/
def initStream (input : List Byte) : Option (Reader × List Byte) :=
  let header : Process (Option Reader) :=
    .receive 4 fun magic => .receive 4 fun _size => .receive 8 fun bits =>
      let bits : BitVec 64 := decode bits
      if decode magic ≠ magicNumber then .done none
      -- A compressed trace goes through another stream.
      else if bits &&& 1 ≠ 0 then .abort
      else if bits &&& ~~~14#64 ≠ 0 then .done none
      else .done (some { traceHasPa := bits &&& 8 ≠ 0 })
  match header.run input with
  | some (some reader, rest, _) => some (reader, rest)
  | _ => none

/-- A call of `Read`: the instruction or the end of the trace, and the
callbacks before it. -/
def read : Nat → Reader → List Byte →
    Option (Option Instruction × List Callback × Reader × List Byte)
  | 0, _, _ => none
  | fuel + 1, reader, input =>
      match (next unset reader).run input with
      | some ((reader, .skipped), rest, _) => read fuel reader rest
      | some ((reader, .callback callback), rest, _) => do
          let (result, callbacks, reader, rest) ← read fuel reader rest
          return (result, callback :: callbacks, reader, rest)
      | some ((reader, .instruction instruction), rest, _) =>
          some (some instruction, [], reader, rest)
      | some ((reader, .finished), rest, _) => some (none, [], reader, rest)
      | some ((_, .request ..), _, _) => none
      | none => none

/-- What the calls of `Read` show: the callbacks, the instructions and the
physical addresses that the reader knows for them when they are returned. -/
inductive Item where
  | callback (callback : Callback)
  | instruction (instruction : Instruction) (physical : List (BitVec 64))
  deriving DecidableEq, Repr

def itemOf (reader : Reader) (instruction : Instruction) : Item :=
  .instruction instruction
    ((instruction.addr :: instruction.addresses).map reader.va2pa)

/-- The calls of `Read` up to the one that finds the end. -/
def readAll : Nat → Reader → List Byte → Option (List Item)
  | 0, _, _ => none
  | fuel + 1, reader, input => do
      let (result, callbacks, reader, rest) ←
        read unset (fuel + 1) reader input
      match result with
      | none => return callbacks.map .callback
      | some instruction =>
          let items ← readAll fuel reader rest
          return callbacks.map .callback ++ itemOf reader instruction :: items

def readTrace (fuel : Nat) (input : List Byte) : Option (List Item) := do
  let (reader, rest) ← initStream input
  readAll unset fuel reader rest

end Reader

end ChipletSniper.Sift.Trace
