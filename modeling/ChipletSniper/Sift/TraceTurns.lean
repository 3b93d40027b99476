import ChipletSniper.Sift.LockStep
import ChipletSniper.Sift.TraceCode

/-!
# Records that are read

One turn of the reader's loop takes exactly the bytes of one record, whatever
follows them.  The turns of a list of records make up the calls of `Read`.
-/

namespace ChipletSniper.Sift.Trace

open Library Function

/-! ## Bit fields -/

theorem instructionByte_fields (size : BitVec 4) (numAddresses : BitVec 2)
    (isBranch taken : Bool) :
    let byte := instructionByte size numAddresses isBranch taken
    byte.extractLsb' 0 4 = size ∧ byte.extractLsb' 4 2 = numAddresses ∧
      byte.getLsbD 6 = isBranch ∧ byte.getLsbD 7 = taken ∧
      (size ≠ 0 → byte ≠ 0 ∧ byte &&& 0xf ≠ 0) := by
  decide +revert

theorem sizeByte_fields (size : BitVec 4) :
    (sizeByte size).extractLsb' 4 4 = size ∧ sizeByte size &&& 0xf = 0 ∧
      (size ≠ 0 → sizeByte size ≠ 0) := by
  decide +revert

theorem flagsByte_fields (numAddresses : BitVec 2)
    (isBranch taken isPredicate executed : Bool) :
    let byte := flagsByte numAddresses isBranch taken isPredicate executed
    byte.extractLsb' 0 2 = numAddresses ∧ byte.getLsbD 2 = isBranch ∧
      byte.getLsbD 3 = taken ∧ byte.getLsbD 4 = isPredicate ∧
      byte.getLsbD 5 = executed := by
  decide +revert

/-! ## Turns -/

variable (unset : Nat → Byte)

/-- A turn of the loop takes these bytes. -/
def Turn (reader : Reader) (bytes : List Byte) (event : Event)
    (next : Reader) : Prop :=
  ∀ rest, (Reader.next unset reader).run (bytes ++ rest) =
    some ((next, event), rest, [])

variable {unset} {reader : Reader}

theorem run_receive_byte {Result : Type} (next : List Byte → Process Result)
    (byte : Byte) (rest : List Byte) :
    (Process.receive 1 next).run (byte :: rest) = (next [byte]).run rest := by
  rw [← List.singleton_append]
  exact Process.run_receive_append rfl

theorem run_receiveAddresses {Result : Type}
    (next : List (BitVec 64) → Process Result) (addresses : List (BitVec 64))
    (rest : List Byte) :
    (Reader.receiveAddresses addresses.length next).run
        (addressBytes addresses ++ rest) =
      (next addresses).run rest := by
  induction addresses generalizing next with
  | nil => rfl
  | cons address addresses ih =>
      rw [List.length_cons, Reader.receiveAddresses, addressBytes,
        List.flatMap_cons, List.append_assoc,
        Process.run_receive_append (length_encode 8 address)]
      rw [decode_address]
      exact ih _

theorem run_instruction {size : BitVec 4} (positive : size ≠ 0)
    (numAddresses : BitVec 2) (isBranch taken : Bool)
    (addresses : List (BitVec 64)) (rest : List Byte) :
    (Reader.next unset reader).run
        ((Record.instruction size numAddresses isBranch taken
          addresses).bytes ++ rest) =
      (Reader.readInstruction reader reader.lastAddress size numAddresses
        isBranch taken false true).run (addressBytes addresses ++ rest) := by
  obtain ⟨sizeField, countField, branchField, takenField, notZero⟩ :=
    instructionByte_fields size numAddresses isBranch taken
  obtain ⟨byteNotZero, lowNotZero⟩ := notZero positive
  rw [Reader.next, Record.bytes, List.cons_append, run_receive_byte,
    decode_singleton]
  simp only [byteNotZero, lowNotZero, sizeField, countField, branchField,
    takenField, if_false, ne_eq, not_false_eq_true, if_true]

theorem run_instructionExt {size : BitVec 4} (positive : size ≠ 0)
    (numAddresses : BitVec 2) (isBranch taken isPredicate executed : Bool)
    (addr : BitVec 64) (addresses : List (BitVec 64)) (rest : List Byte) :
    (Reader.next unset reader).run
        ((Record.instructionExt size numAddresses isBranch taken isPredicate
          executed addr addresses).bytes ++ rest) =
      (Reader.readInstruction reader addr size numAddresses isBranch taken
        isPredicate executed).run (addressBytes addresses ++ rest) := by
  obtain ⟨sizeField, lowZero, notZero⟩ := sizeByte_fields size
  obtain ⟨countField, branchField, takenField, predicateField,
    executedField⟩ :=
    flagsByte_fields numAddresses isBranch taken isPredicate executed
  rw [Reader.next, Record.bytes, List.cons_append, List.cons_append,
    run_receive_byte, decode_singleton]
  simp only [notZero positive, lowZero, if_false, ne_eq, not_true_eq_false]
  rw [run_receive_byte, List.append_assoc,
    Process.run_receive_append (length_encode 8 addr), decode_singleton,
    decode_address]
  simp only [sizeField, countField, branchField, takenField, predicateField,
    executedField]

/-- A record that is not an instruction is told apart by its first byte. -/
theorem run_other (type : RecordType) (size : BitVec 32)
    (data rest : List Byte) :
    (Reader.next unset reader).run
        ((Record.other type size data).bytes ++ rest) =
      (Reader.readOther unset reader type.code size).run (data ++ rest) := by
  have header : (Sift.other type size).bytes =
      0 :: (type.code :: encode 4 size) := rfl
  have length : (type.code :: encode 4 size).length = 5 := by
    rw [List.length_cons, length_encode]
  rw [Reader.next, Record.bytes, header, List.cons_append, List.cons_append,
    run_receive_byte, decode_singleton]
  simp only [if_true, List.append_assoc]
  rw [Process.run_receive_append length, List.singleton_append, ← header,
    ofBytes_header]
  rfl

/-! ## Records without an instruction -/

theorem turn_icache (image : BitVec 64 → Byte) (base : BitVec 64) :
    Turn unset reader (Writer.icacheRecord image base).bytes .skipped
      { reader with
        icache := update reader.icache base
          (some (copyIn unset 0 (code image base 4096))) } := by
  intro rest
  have length : (code image base 4096).length = 4096 := length_code _ _ _
  rw [Writer.icacheRecord, run_other, List.append_assoc]
  change (Process.receive 8 _).run _ = _
  rw [Process.run_receive_append (length_encode 8 base),
    Process.run_receive_append length, decode_address]
  rfl

theorem turn_icacheVariable (addr : BitVec 64) {bytes : List Byte}
    {size : Nat} (length : bytes.length = size) (small : size < 16)
    {icache : BitVec 64 → Option (Nat → Byte)}
    (spreads : Reader.spread unset size addr bytes reader.icache =
      some icache) :
    Turn unset reader (Record.other .icacheVariable (8 + BitVec.ofNat 32 size)
        (encode 8 addr ++ bytes)).bytes
      .skipped { reader with icache := icache } := by
  intro rest
  have whole : (8 + BitVec.ofNat 32 size).toNat = 8 + size := by
    rw [BitVec.toNat_add, BitVec.toNat_ofNat]
    change (8 + size % 2 ^ 32) % 2 ^ 32 = _
    omega
  have large : ¬ 8 + size < 8 := by omega
  have left : bytes.length = 8 + size - 8 := by omega
  rw [run_other, List.append_assoc]
  change (if (8 + BitVec.ofNat 32 size).toNat < 8 then _
    else Process.receive 8 _).run _ = _
  rw [whole, if_neg large,
    Process.run_receive_append (length_encode 8 addr),
    Process.run_receive_append left, decode_address]
  simp only [length, spreads]
  rfl

theorem turn_logical2Physical (vp pp : BitVec 64) :
    Turn unset reader
      (Record.other .logical2Physical 16 (encode 8 vp ++ encode 8 pp)).bytes
      .skipped
      { reader with vcache := update reader.vcache vp (some pp) } := by
  intro rest
  rw [run_other, List.append_assoc]
  change (Process.receive 8 _).run _ = _
  rw [Process.run_receive_append (length_encode 8 vp),
    Process.run_receive_append (length_encode 8 pp), decode_address,
    decode_address]
  rfl

theorem turn_cacheOnly (icount : Byte) (type : CacheOnlyType)
    (eip address : BitVec 64) :
    Turn unset reader (Record.other .cacheOnly 18
        (icount :: type.code :: (encode 8 eip ++ encode 8 address))).bytes
      (.callback (.cacheOnly icount type.code eip address)) reader := by
  intro rest
  rw [run_other, List.cons_append, List.cons_append, List.append_assoc]
  change (Process.receive 1 _).run _ = _
  rw [run_receive_byte, run_receive_byte,
    Process.run_receive_append (length_encode 8 eip),
    Process.run_receive_append (length_encode 8 address), decode_singleton,
    decode_singleton, decode_address, decode_address]
  rfl

/-- Some output, which fits into one record with its descriptor. -/
theorem turn_output (fd : Byte) {data : List Byte} (filled : data ≠ [])
    (small : data.length + 1 < 2 ^ 32) :
    Turn unset reader (Record.other .output (1 + BitVec.ofNat 32 data.length)
        (fd :: data)).bytes
      (.callback (.output fd data)) reader := by
  intro rest
  have positive := List.length_pos_iff.mpr filled
  have size : (1 + BitVec.ofNat 32 data.length).toNat = 1 + data.length := by
    rw [BitVec.toNat_add, BitVec.toNat_ofNat]
    change (1 + data.length % 2 ^ 32) % 2 ^ 32 = _
    omega
  have large : 1 < 1 + data.length := by omega
  have left : data.length = (1 + BitVec.ofNat 32 data.length - 1).toNat := by
    have cancelled : 1 + BitVec.ofNat 32 data.length - 1 =
        BitVec.ofNat 32 data.length := by
      bv_omega
    rw [cancelled, BitVec.toNat_ofNat]
    omega
  rw [run_other, List.cons_append]
  change (if 1 < (1 + BitVec.ofNat 32 data.length).toNat then
    Process.receive 1 _ else _).run _ = _
  rw [size, if_pos large, run_receive_byte, Process.run_receive_append left,
    decode_singleton]
  rfl

theorem turn_isaChange (newIsa : BitVec 32) :
    Turn unset reader (Record.other .isaChange 4 (encode 4 newIsa)).bytes
      .skipped { reader with isa := newIsa } := by
  intro rest
  rw [run_other]
  change (Process.receive 4 _).run _ = _
  rw [Process.run_receive_append (length_encode 4 newIsa), decode_word]
  rfl

theorem turn_routineChange (event : RoutineOpType)
    (eip esp callEip : BitVec 64) :
    Turn unset reader (Record.other .routineChange 25 (event.code ::
        (encode 8 eip ++ (encode 8 esp ++ encode 8 callEip)))).bytes
      (.callback (.routineChange event.code eip esp callEip)) reader := by
  intro rest
  rw [run_other, List.cons_append, List.append_assoc, List.append_assoc]
  change (Process.receive 1 _).run _ = _
  rw [run_receive_byte, Process.run_receive_append (length_encode 8 eip),
    Process.run_receive_append (length_encode 8 esp),
    Process.run_receive_append (length_encode 8 callEip), decode_singleton,
    decode_address, decode_address, decode_address]
  rfl

/-- A text that is sent with its end, and whose length fits. -/
def IsText (bytes : List Byte) : Prop :=
  0 ∉ bytes ∧ bytes.length + 1 < 2 ^ 16

theorem run_receiveText {Result : Type} (next : List Byte → Process Result)
    {bytes : List Byte} (isText : IsText bytes) (rest : List Byte) :
    (Reader.receiveText next).run (Writer.textBytes bytes ++ rest) =
      (next bytes).run rest := by
  obtain ⟨noEnd, small⟩ := isText
  have length : (BitVec.ofNat 16 (bytes.length + 1)).toNat =
      bytes.length + 1 := by
    rw [BitVec.toNat_ofNat, Nat.mod_eq_of_lt small]
  have all : (bytes ++ [0]).take (bytes.length + 1) = bytes ++ [0] := by
    rw [← List.length_singleton (a := (0 : Byte)), ← List.length_append,
      List.take_length]
  have found : Reader.text (bytes ++ [0]) = bytes := by
    rw [Reader.text, List.takeWhile_append_of_pos]
    · simp
    · intro byte member
      apply decide_eq_true
      intro isEnd
      rw [isEnd] at member
      exact noEnd member
  have sent : (bytes ++ [0]).length = bytes.length + 1 := by
    rw [List.length_append, List.length_singleton]
  simp only [Writer.textBytes, length, all]
  rw [Reader.receiveText, List.append_assoc,
    Process.run_receive_append (length_encode 2 _),
    decode_encode (by decide), length, Process.run_receive_append sent, found]

theorem turn_routineAnnounce (eip : BitVec 64) {name imgname : List Byte}
    (offset : BitVec 64) (line column : BitVec 32) {filename : List Byte}
    (isName : IsText name) (isImgname : IsText imgname)
    (isFilename : IsText filename) (size : BitVec 32) :
    Turn unset reader (Record.other .routineAnnounce size
        (Writer.announcement eip name imgname offset line column
          filename)).bytes
      (.callback (.routineAnnounce eip name imgname offset line column
        filename)) reader := by
  intro rest
  rw [run_other]
  simp only [Writer.announcement, List.append_assoc]
  change (Process.receive 8 _).run _ = _
  rw [Process.run_receive_append (length_encode 8 eip),
    run_receiveText _ isName, run_receiveText _ isImgname,
    Process.run_receive_append (length_encode 8 offset),
    Process.run_receive_append (length_encode 4 line),
    Process.run_receive_append (length_encode 4 column),
    run_receiveText _ isFilename, decode_address, decode_address, decode_word,
    decode_word]
  rfl

end ChipletSniper.Sift.Trace
