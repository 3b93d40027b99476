import ChipletSniper.Library.Bytes
import ChipletSniper.Sift.Format
import Mathlib.Logic.Function.Basic

/-!
# Writing instruction traces

`Writer` for the records that ask for no response: instructions with the code
and the page mappings that the reader does not have yet, and the announcements
beside them.
-/

namespace ChipletSniper.Sift.Trace

open Library Function

/-! ## Addresses -/

/-- `address & ICACHE_PAGE_MASK`. -/
def pageOf (address : BitVec 64) : BitVec 64 := address &&& ~~~0xfff#64

/-- `address & ICACHE_OFFSET_MASK`. -/
def offsetOf (address : BitVec 64) : Nat := (address &&& 0xfff#64).toNat

/-- What `getCodeFunc` copies. -/
def code (image : BitVec 64 → Byte) (address : BitVec 64) (count : Nat) :
    List Byte :=
  (List.range count).map fun offset => image (address + BitVec.ofNat 64 offset)

/-! ## Records -/

/-- `Record`, with the data that follows it. -/
inductive Record where
  | instruction (size : BitVec 4) (numAddresses : BitVec 2)
      (isBranch taken : Bool) (addresses : List (BitVec 64))
  | instructionExt (size : BitVec 4) (numAddresses : BitVec 2)
      (isBranch taken isPredicate executed : Bool) (addr : BitVec 64)
      (addresses : List (BitVec 64))
  | other (type : RecordType) (size : BitVec 32) (data : List Byte)

/-- The byte of the simple format. -/
def instructionByte (size : BitVec 4) (numAddresses : BitVec 2)
    (isBranch taken : Bool) : Byte :=
  BitVec.ofBool taken ++ BitVec.ofBool isBranch ++ numAddresses ++ size

/-- The first byte of the extended format, whose type is zero. -/
def sizeByte (size : BitVec 4) : Byte := size ++ 0#4

/-- The second byte of the extended format. -/
def flagsByte (numAddresses : BitVec 2)
    (isBranch taken isPredicate executed : Bool) : Byte :=
  0#2 ++ BitVec.ofBool executed ++ BitVec.ofBool isPredicate ++
    BitVec.ofBool taken ++ BitVec.ofBool isBranch ++ numAddresses

def addressBytes (addresses : List (BitVec 64)) : List Byte :=
  addresses.flatMap (encode 8)

def Record.bytes : Record → List Byte
  | .instruction size numAddresses isBranch taken addresses =>
      instructionByte size numAddresses isBranch taken ::
        addressBytes addresses
  | .instructionExt size numAddresses isBranch taken isPredicate executed addr
      addresses =>
      sizeByte size ::
        flagsByte numAddresses isBranch taken isPredicate executed ::
          (encode 8 addr ++ addressBytes addresses)
  | .other type size data => (Sift.other type size).bytes ++ data

/-! ## Calls -/

/-- `CacheOnlyType`. -/
inductive CacheOnlyType where
  | branchTaken
  | branchNotTaken
  | memRead
  | memWrite
  | memIcache
  deriving DecidableEq, Repr

def CacheOnlyType.code : CacheOnlyType → Byte
  | .branchTaken => 0
  | .branchNotTaken => 1
  | .memRead => 2
  | .memWrite => 3
  | .memIcache => 4

/-- `RoutineOpType`. -/
inductive RoutineOpType where
  | enter
  | exit
  | assert
  deriving DecidableEq, Repr

def RoutineOpType.code : RoutineOpType → Byte
  | .enter => 0
  | .exit => 1
  | .assert => 2

/-- The arguments of `Instruction`. -/
structure InstructionCall where
  addr : BitVec 64
  size : Nat
  addresses : List (BitVec 64)
  isBranch : Bool
  taken : Bool
  isPredicate : Bool
  executed : Bool

/-- The calls that ask for no response. -/
inductive Call where
  | instruction (call : InstructionCall)
  | cacheOnly (icount : Byte) (type : CacheOnlyType) (eip address : BitVec 64)
  | output (fd : Byte) (data : List Byte)
  | isaChange (newIsa : BitVec 32)
  | routineChange (event : RoutineOpType) (eip esp callEip : BitVec 64)
  | routineAnnounce (eip : BitVec 64) (name imgname : List Byte)
      (offset : BitVec 64) (line column : BitVec 32) (filename : List Byte)

/-! ## The writer -/

/-- What the writer is created with, without compression. -/
structure Options where
  archIA32 : Bool := false
  requiresIcachePerInsn : Bool := false
  sendVa2paMapping : Bool := false
  deriving DecidableEq, Repr

/-- `MagicNumber`. -/
def magicNumber : BitVec 32 := 0x54464953#32

/-- The bits of the header. -/
def Options.bits (options : Options) : BitVec 64 :=
  (if options.archIA32 then 2#64 else 0#64) |||
    ((if options.requiresIcachePerInsn then 4#64 else 0#64) |||
      (if options.sendVa2paMapping then 8#64 else 0#64))

/-- The header of a trace. -/
def Options.header (options : Options) : List Byte :=
  encode 4 magicNumber ++ (encode 4 0#32 ++ encode 8 options.bits)

structure Writer where
  lastAddress : BitVec 64 := 0
  icache : BitVec 64 → Bool := fun _ => false
  va2pa : BitVec 64 → Bool := fun _ => false

namespace Writer

variable (options : Options) (image : BitVec 64 → Byte)

/-- The record of one page of code. -/
def icacheRecord (base : BitVec 64) : Record :=
  .other .icache (8 + 4096) (encode 8 base ++ code image base 4096)

/-- The loop over the pages of an instruction. -/
def sendPages : Nat → BitVec 64 → BitVec 64 → Writer →
    Option (List Record × Writer)
  | 0, _, _, _ => none
  | fuel + 1, base, last, writer =>
      if base ≤ last then
        if writer.icache base then
          sendPages fuel (base + 4096) last writer
        else do
          let (records, writer) ← sendPages fuel (base + 4096) last
            { writer with icache := update writer.icache base true }
          return (icacheRecord image base :: records, writer)
      else some ([], writer)

/-- The code of an instruction, in the mode that the trace is written in. -/
def sendIcache (fuel : Nat) (addr : BitVec 64) (size : Nat) (writer : Writer) :
    Option (List Record × Writer) :=
  if options.requiresIcachePerInsn then
    if writer.icache addr then some ([], writer)
    else some ([.other .icacheVariable (8 + BitVec.ofNat 32 size)
        (encode 8 addr ++ code image addr size)],
      { writer with icache := update writer.icache addr true })
  else
    sendPages image fuel (pageOf addr)
      (pageOf (addr + BitVec.ofNat 64 size - 1)) writer

/-- `send_va2pa`, with the physical pages that are looked up. -/
def sendVa2pa (pages : BitVec 64 → BitVec 64) (va : BitVec 64)
    (writer : Writer) : List Record × Writer :=
  if options.sendVa2paMapping then
    let vp := va / 4096
    if writer.va2pa vp then ([], writer)
    else if pages vp = 0 then ([], writer)
    else
      ([.other .logical2Physical 16 (encode 8 vp ++ encode 8 (pages vp))],
        { writer with va2pa := update writer.va2pa vp true })
  else ([], writer)

def sendAll (pages : BitVec 64 → BitVec 64) :
    List (BitVec 64) → Writer → List Record × Writer
  | [], writer => ([], writer)
  | va :: rest, writer =>
      let (records, writer) := sendVa2pa options pages va writer
      let (more, writer) := sendAll pages rest writer
      (records ++ more, writer)

/-- The record of an instruction, and the end of `Instruction`. -/
def sendInstruction (call : InstructionCall) (writer : Writer) :
    Record × Writer :=
  let size := BitVec.ofNat 4 call.size
  let numAddresses := BitVec.ofNat 2 call.addresses.length
  let width := BitVec.ofNat 64 call.size
  if call.addr = writer.lastAddress ∧ call.isPredicate = false then
    (.instruction size numAddresses call.isBranch call.taken call.addresses,
      { writer with lastAddress := writer.lastAddress + width })
  else
    (.instructionExt size numAddresses call.isBranch call.taken
        call.isPredicate call.executed call.addr call.addresses,
      { writer with lastAddress := call.addr + width })

def instruction (fuel : Nat) (pages : BitVec 64 → BitVec 64)
    (call : InstructionCall) (writer : Writer) :
    Option (List Record × Writer) :=
  if call.size < 16 ∧ call.addresses.length ≤ 2 then do
    let (icache, writer) ← sendIcache options image fuel call.addr call.size
      writer
    let (mappings, writer) := sendAll options pages
      (call.addr :: call.addresses) writer
    let (record, writer) := sendInstruction call writer
    return (icache ++ (mappings ++ [record]), writer)
  else none

/-- A text with the byte that ends it, behind their length in 16 bits. -/
def textBytes (text : List Byte) : List Byte :=
  let length := BitVec.ofNat 16 (text.length + 1)
  encode 2 length ++ (text ++ [0]).take length.toNat

def announcement (eip : BitVec 64) (name imgname : List Byte)
    (offset : BitVec 64) (line column : BitVec 32) (filename : List Byte) :
    List Byte :=
  encode 8 eip ++ (textBytes name ++ (textBytes imgname ++ (encode 8 offset ++
    (encode 4 line ++ (encode 4 column ++ textBytes filename)))))

/-- The records of one call. -/
def call (fuel : Nat) (pages : BitVec 64 → BitVec 64) :
    Call → Writer → Option (List Record × Writer)
  | .instruction call, writer =>
      instruction options image fuel pages call writer
  | .cacheOnly icount type eip address, writer =>
      let (mappings, writer) := sendAll options pages [eip, address] writer
      some (mappings ++ [.other .cacheOnly 18
        (icount :: type.code :: (encode 8 eip ++ encode 8 address))], writer)
  | .output fd data, writer =>
      some ([.other .output (1 + BitVec.ofNat 32 data.length) (fd :: data)],
        writer)
  | .isaChange newIsa, writer =>
      some ([.other .isaChange 4 (encode 4 newIsa)], writer)
  | .routineChange event eip esp callEip, writer =>
      some ([.other .routineChange 25 (event.code ::
        (encode 8 eip ++ (encode 8 esp ++ encode 8 callEip)))], writer)
  | .routineAnnounce eip name imgname offset line column filename, writer =>
      let data := announcement eip name imgname offset line column filename
      some ([.other .routineAnnounce (BitVec.ofNat 32 data.length) data],
        writer)

/-- The records of the calls, each with the page table at its time. -/
def calls (fuel : Nat) : List ((BitVec 64 → BitVec 64) × Call) → Writer →
    Option (List Record × Writer)
  | [], writer => some ([], writer)
  | (pages, first) :: rest, writer => do
      let (records, writer) ← call options image fuel pages first writer
      let (more, writer) ← calls fuel rest writer
      return (records ++ more, writer)

/-- `End`. -/
def finish : Record := .other .finish 0 []

/-- The bytes of a trace. -/
def trace (fuel : Nat) (entries : List ((BitVec 64 → BitVec 64) × Call)) :
    Option (List Byte) := do
  let (records, _) ← calls options image fuel entries {}
  return options.header ++ (records ++ [finish]).flatMap Record.bytes

end Writer

end ChipletSniper.Sift.Trace
