import ChipletSniper.Library.Bytes

/-!
# The trace format

The records that are not instructions: a zero byte, the type, the size of what
follows, and the data.
-/

namespace ChipletSniper.Sift

open Library

/-- `RecOtherType`. -/
inductive RecordType where
  | icache
  | output
  | syscallRequest
  | syscallResponse
  | newThread
  | newThreadResponse
  | memoryRequest
  | memoryResponse
  | join
  | joinResponse
  | endResponse
  | icacheVariable
  | sync
  | syncResponse
  | logical2Physical
  | magicInstruction
  | magicInstructionResponse
  | routineChange
  | routineAnnounce
  | emu
  | emuResponse
  | fork
  | forkResponse
  | instructionCount
  | cacheOnly
  | isaChange
  | finish
  deriving DecidableEq, Repr

def RecordType.code : RecordType → Byte
  | .icache => 0
  | .output => 1
  | .syscallRequest => 2
  | .syscallResponse => 3
  | .newThread => 4
  | .newThreadResponse => 5
  | .memoryRequest => 6
  | .memoryResponse => 7
  | .join => 8
  | .joinResponse => 9
  | .endResponse => 10
  | .icacheVariable => 11
  | .sync => 12
  | .syncResponse => 13
  | .logical2Physical => 14
  | .magicInstruction => 15
  | .magicInstructionResponse => 16
  | .routineChange => 17
  | .routineAnnounce => 18
  | .emu => 19
  | .emuResponse => 20
  | .fork => 21
  | .forkResponse => 22
  | .instructionCount => 23
  | .cacheOnly => 24
  | .isaChange => 25
  | .finish => 0xff

/-- `Record::Other` without its data. -/
structure Header where
  zero : Byte
  type : Byte
  size : BitVec 32

/-- `sizeof(rec.Other)`. -/
def headerSize : Nat := 6

def Header.bytes (header : Header) : List Byte :=
  header.zero :: header.type :: encode 4 header.size

/-- The header of a record of the given type. -/
def other (type : RecordType) (size : BitVec 32) : Header :=
  ⟨0, type.code, size⟩

def Header.ofBytes (bytes : List Byte) : Header :=
  ⟨decode (bytes.take 1), decode ((bytes.drop 1).take 1),
    decode (bytes.drop 2)⟩

theorem length_header (header : Header) :
    header.bytes.length = headerSize := by
  simp [Header.bytes, headerSize]

theorem decode_singleton (byte : Byte) : decode [byte] = byte := by
  simp [decode, Library.ofBytes]

@[simp] theorem ofBytes_header (header : Header) :
    Header.ofBytes header.bytes = header := by
  have size : decode (encode 4 header.size) = header.size :=
    decode_encode (by decide) header.size
  simp [Header.ofBytes, Header.bytes, decode_singleton, size]

end ChipletSniper.Sift
