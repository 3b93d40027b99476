import ChipletSniper.Sift.Exchange

/-!
# The writer and the reader in lock step

When each memory access is one that the writer answers, both streams are empty
after it; and the order in which the two processes run makes no difference.
-/

namespace ChipletSniper.Sift

open Library

variable {Memory : Type*} (function : Option (MemoryFunction Memory))

/-- The accesses that the writer answers: reads and writes of at least one
byte, of which a write fits into one record. -/
def Served (call : MemoryCall) : Prop :=
  function ≠ none ∧ call.buffer ≠ [] ∧
    (call.op = memRead ∨
      call.op = memWrite ∧ call.buffer.length + 20 < 2 ^ 32)

/-- What an access does when the memory function is called directly: the
memory afterwards, and what `AccessMemory` should return. -/
def answer (memory : Memory) (call : MemoryCall) :
    Memory × (Bool × List Byte) :=
  match function with
  | none => (memory, (false, call.buffer))
  | some function =>
      if call.op = memRead then
        let (after, bytes) := function.access memory call.lock call.op
          call.address (List.replicate call.buffer.length 0)
        (after, (true, bytes))
      else
        ((function.access memory call.lock call.op call.address
          call.buffer).1, (true, call.buffer))

/-- One access in lock step: one round of the writer's loop consumes exactly
what `AccessMemory` wrote and sends exactly one response, which is what
`AccessMemory` consumes, and the answer is that of a direct call. -/
def Exchange (request : Request) (memory : Memory) (call : MemoryCall) :
    Prop :=
  ∃ bytes,
    (Writer.wait function request memory).run (Reader.memoryRequest call) =
      some (.inl (answer function memory call).1, [],
        Writer.memoryResponse call.address call.op bytes) ∧
    (Reader.memoryReply call).run
        (Writer.memoryResponse call.address call.op bytes) =
      some ((answer function memory call).2, [], []) ∧
    (answer function memory call).2.1 = true

/-! ## One access -/

theorem size_toNat (call : MemoryCall) :
    call.size.toNat = call.buffer.length := by
  rw [MemoryCall.size, BitVec.toNat_ofNat, Nat.mod_eq_of_lt call.small]

theorem size_eq_zero {call : MemoryCall} :
    call.size = 0 ↔ call.buffer = [] := by
  rw [← BitVec.toNat_inj, size_toNat]
  exact List.length_eq_zero_iff

variable {function}

/-- The writer's loop passes a memory request on. -/
theorem wait_memoryRequest (request : Request) {memory after : Memory}
    {size : BitVec 32} {input rest sent : List Byte}
    (handled : (Writer.handleMemoryRequest function memory size).run input =
      some (after, rest, sent)) :
    (Writer.wait function request memory).run
      ((other .memoryRequest size).bytes ++ input) =
        some (.inl after, rest, sent) := by
  unfold Writer.wait
  rw [Process.run_receive_append (length_header _)]
  simp only [ofBytes_header, other, ne_eq, not_true_eq_false, if_false,
    if_true]
  exact Process.run_map Sum.inl handled

theorem memWrite_ne_memRead : memWrite ≠ memRead := by
  decide

@[simp] theorem decode_address (address : BitVec 64) :
    decode (encode 8 address) = address :=
  decode_encode (by decide) address

@[simp] theorem decode_word (word : BitVec 32) :
    decode (encode 4 word) = word :=
  decode_encode (by decide) word

/-- The fixed fields of a memory request. -/
theorem handle_fields {memory : Memory} {size : BitVec 32}
    (long : ¬ size.toNat < 20) (call : MemoryCall) (rest : List Byte) :
    (Writer.handleMemoryRequest function memory size).run
      (encode 8 call.address ++ (encode 4 call.size ++ (encode 4 call.lock ++
        (encode 4 call.op ++ rest)))) =
      (Writer.answerRequest function memory (size - 20) call.address
        call.size call.lock call.op).run rest := by
  unfold Writer.handleMemoryRequest
  rw [if_neg long, Process.run_receive_append (length_encode 8 call.address),
    Process.run_receive_append (length_encode 4 call.size),
    Process.run_receive_append (length_encode 4 call.lock),
    Process.run_receive_append (length_encode 4 call.op)]
  simp only [decode_address, decode_word]

/-- The response is consumed by the access that it answers. -/
theorem memoryReply_read {call : MemoryCall} (reads : call.op = memRead)
    {bytes : List Byte} (length : bytes.length = call.buffer.length) :
    (Reader.memoryReply call).run
        (Writer.memoryResponse call.address call.op bytes) =
      some ((true, bytes), [], []) := by
  have payload : (8 + 4 + BitVec.ofNat 32 bytes.length) - 8 - 4 =
      call.size := by
    rw [MemoryCall.size, length]
    generalize BitVec.ofNat 32 call.buffer.length = size
    bv_omega
  have all : bytes.length = call.size.toNat := by
    rw [length, size_toNat]
  unfold Reader.memoryReply Writer.memoryResponse
  rw [Process.run_receive_append (length_header _)]
  simp only [ofBytes_header, other, ne_eq, not_true_eq_false, if_false]
  rw [Process.run_receive_append (length_encode 8 call.address),
    Process.run_receive_append (length_encode 4 call.op)]
  simp only [decode_address, payload, not_true_eq_false, reads, if_false,
    if_true]
  exact Process.run_receive_all all

theorem memoryReply_write {call : MemoryCall} (writes : call.op = memWrite) :
    (Reader.memoryReply call).run
        (Writer.memoryResponse call.address call.op []) =
      some ((true, call.buffer), [], []) := by
  unfold Reader.memoryReply Writer.memoryResponse
  rw [Process.run_receive_append (length_header _)]
  simp only [ofBytes_header, other, ne_eq, not_true_eq_false, if_false]
  rw [Process.run_receive_append (length_encode 8 call.address),
    Process.run_receive_append (length_encode 4 call.op)]
  have different : memWrite ≠ memRead := by decide
  simp [writes, different]

/-- A read of at least one byte is answered with the bytes. -/
theorem handle_read (function : MemoryFunction Memory) (memory : Memory)
    {call : MemoryCall} (reads : call.op = memRead)
    (filled : call.buffer ≠ []) :
    (Writer.handleMemoryRequest (some function) memory 20).run
        (encode 8 call.address ++ (encode 4 call.size ++
          (encode 4 call.lock ++ (encode 4 call.op ++ [])))) =
      some ((function.access memory call.lock call.op call.address
          (List.replicate call.buffer.length 0)).1, [],
        Writer.memoryResponse call.address call.op
          (function.access memory call.lock call.op call.address
            (List.replicate call.buffer.length 0)).2) := by
  have counted : call.size ≠ 0 := fun none => filled (size_eq_zero.mp none)
  rw [handle_fields (by decide)]
  simp only [Writer.answerRequest, reads, counted, size_toNat, if_true,
    if_false, ne_eq]
  exact (Process.run_send rfl).trans (by rw [List.append_nil])

/-- A write of at least one byte is answered without bytes. -/
theorem handle_write (function : MemoryFunction Memory) (memory : Memory)
    {call : MemoryCall} (writes : call.op = memWrite)
    (filled : call.buffer ≠ []) (fits : call.buffer.length + 20 < 2 ^ 32) :
    (Writer.handleMemoryRequest (some function) memory (20 + call.size)).run
        (encode 8 call.address ++ (encode 4 call.size ++
          (encode 4 call.lock ++ (encode 4 call.op ++ call.buffer)))) =
      some ((function.access memory call.lock call.op call.address
          call.buffer).1, [],
        Writer.memoryResponse call.address call.op []) := by
  have counted : call.size ≠ 0 := fun none => filled (size_eq_zero.mp none)
  have total : (20 + call.size).toNat = 20 + call.buffer.length := by
    rw [BitVec.toNat_add, size_toNat]
    exact Nat.mod_eq_of_lt (by simpa [Nat.add_comm] using fits)
  have payload : 20 + call.size - 20 = call.size := by
    bv_omega
  have long : ¬ (20 + call.size).toNat < 20 := by
    rw [total]
    exact Nat.not_lt.mpr (Nat.le_add_right _ _)
  rw [handle_fields long, payload]
  simp only [Writer.answerRequest, writes, memWrite_ne_memRead, counted,
    if_false, if_true, ne_eq, not_true_eq_false]
  rw [Process.run_receive_all (size_toNat call).symm]
  exact (Process.run_send rfl).trans (by rw [List.append_nil])

/-- Any other access is not answered. -/
theorem handle_unserved (memory : Memory) {call : MemoryCall}
    (unserved : ¬ Served function call) :
    ∃ rest,
      (Writer.handleMemoryRequest function memory
        (if call.op = memWrite then 20 + call.size else 20)).run
          (encode 8 call.address ++ (encode 4 call.size ++
            (encode 4 call.lock ++ (encode 4 call.op ++
              if call.op = memWrite then call.buffer else [])))) =
        some (memory, rest, []) := by
  by_cases short : (if call.op = memWrite then 20 + call.size
      else 20).toNat < 20
  · unfold Writer.handleMemoryRequest
    rw [if_pos short]
    exact ⟨_, rfl⟩
  rw [handle_fields short]
  cases function with
  | none => exact ⟨_, rfl⟩
  | some function =>
      by_cases reads : call.op = memRead
      · have empty : call.size = 0 := by
          by_contra filled
          exact unserved ⟨nofun, fun none => filled (size_eq_zero.mpr none),
            .inl reads⟩
        have apart : memRead ≠ memWrite := memWrite_ne_memRead.symm
        simp [Writer.answerRequest, reads, empty, apart]
      by_cases writes : call.op = memWrite
      · have empty : call.size = 0 := by
          by_contra filled
          refine unserved ⟨nofun, fun none => filled (size_eq_zero.mpr none),
            .inr ⟨writes, ?_⟩⟩
          rw [if_pos writes] at short
          have length := size_toNat call
          bv_omega
        simp [Writer.answerRequest, writes, empty, memWrite_ne_memRead]
      · simp [Writer.answerRequest, reads, writes]

/-- An access is in lock step exactly if it is one that the writer answers. -/
theorem exchange_iff {request : Request} {memory : Memory}
    {call : MemoryCall} :
    Exchange function request memory call ↔ Served function call := by
  constructor
  · rintro ⟨bytes, waited, _⟩
    by_contra unserved
    obtain ⟨rest, handled⟩ := handle_unserved memory unserved
    have silent := waited.symm.trans
      (wait_memoryRequest request handled)
    simp [Writer.memoryResponse, Header.bytes] at silent
  · rintro ⟨set, filled, allowed⟩
    obtain ⟨function, rfl⟩ := Option.ne_none_iff_exists'.mp set
    rcases allowed with reads | ⟨writes, fits⟩
    · have apart : memRead ≠ memWrite := memWrite_ne_memRead.symm
      have waited := wait_memoryRequest request
        (handle_read function memory reads filled)
      have length : (function.access memory call.lock call.op call.address
          (List.replicate call.buffer.length 0)).2.length =
          call.buffer.length :=
        function.length_access.trans List.length_replicate
      have returned := memoryReply_read reads length
      unfold Exchange
      simp only [answer, Reader.memoryRequest, reads, apart, if_true,
        if_false] at waited returned ⊢
      exact ⟨_, waited, returned, trivial⟩
    · have waited := wait_memoryRequest request
        (handle_write function memory writes filled fits)
      have returned := memoryReply_write writes
      unfold Exchange
      simp only [answer, Reader.memoryRequest, writes, memWrite_ne_memRead,
        if_true, if_false] at waited returned ⊢
      exact ⟨_, waited, returned, trivial⟩

/-! ## Whole requests -/

variable (function)

/-- Every access that the callback makes is in lock step. -/
def InStep (request : Request) {Value : Type} :
    Memory → Service Value → Prop
  | _, .respond _ => True
  | memory, .access call next =>
      Exchange function request memory call ∧
        InStep request (answer function memory call).1
          (next (answer function memory call).2)

/-- Every access that the callback makes is one that the writer answers. -/
def AllServed {Value : Type} : Memory → Service Value → Prop
  | _, .respond _ => True
  | memory, .access call next =>
      Served function call ∧
        AllServed (answer function memory call).1
          (next (answer function memory call).2)

/-- The callback with a memory function that it can call directly. -/
def direct {Value : Type} : Memory → Service Value → Memory × Value
  | memory, .respond value => (memory, value)
  | memory, .access call next =>
      direct (answer function memory call).1
        (next (answer function memory call).2)

variable {function}

theorem inStep_iff {request : Request} {Value : Type}
    {service : Service Value} {memory : Memory} :
    InStep function request memory service ↔
      AllServed function memory service := by
  induction service generalizing memory with
  | respond value => exact Iff.rfl
  | access call next ih =>
      exact and_congr exchange_iff (ih _)

theorem direct_map {Value Other : Type} (change : Value → Other)
    (service : Service Value) (memory : Memory) :
    direct function memory (service.map change) =
      ((direct function memory service).1,
        change (direct function memory service).2) := by
  induction service generalizing memory with
  | respond value => rfl
  | access call next ih => exact ih _ _

/-- The answers that a request can get. -/
def Answers : Request → Answer → Prop
  | .syscall .., .syscall _ => True
  | .sync, .sync _ => True
  | .magic .., .magic _ => True
  | .emulate .., .emulate _ _ => True
  | _, _ => False

namespace Reader

/-- What the callbacks do for a request. -/
def service (callbacks : Callbacks) : Request → Service Answer
  | .syscall _ number data _ => handleSyscall callbacks number data
  | .sync => handleSync callbacks
  | .magic a b c => handleMagic callbacks a b c
  | .emulate type request => handleEmu callbacks type request

end Reader

theorem answers_service (callbacks : Callbacks) (request : Request)
    (memory : Memory) :
    Answers request
      (direct function memory (Reader.service callbacks request)).2 := by
  cases request with
  | syscall page number data small =>
      simp only [Reader.service, Reader.handleSyscall, direct_map, Answers]
  | sync =>
      simp only [Reader.service, Reader.handleSync]
      split
      · trivial
      · simp only [direct_map, Answers]
  | magic a b c =>
      simp only [Reader.service, Reader.handleMagic]
      split
      · trivial
      · simp only [direct_map, Answers]
  | emulate type request =>
      simp only [Reader.service, Reader.handleEmu]
      split
      · trivial
      · simp only [direct_map, Answers]

@[simp] theorem decode_reply (reply : BitVec 384) :
    decode (encode 48 reply) = reply :=
  decode_encode (by decide) reply

/-- A record that is not a memory request is taken as the response. -/
theorem wait_other {request : Request} {memory : Memory} (type : RecordType)
    {size : BitVec 32} (responds : type ≠ .memoryRequest)
    (input : List Byte) :
    (Writer.wait function request memory).run
        ((other type size).bytes ++ input) =
      (Writer.response memory type.code size request).run input := by
  have different : type.code ≠ RecordType.memoryRequest.code := by
    revert responds
    cases type <;> decide
  unfold Writer.wait
  rw [Process.run_receive_append (length_header _)]
  simp only [ofBytes_header, other, ne_eq, not_true_eq_false, if_false,
    different]

/-- The writer gets the answer that the reader sent. -/
theorem wait_response {request : Request} {reply : Answer}
    (answers : Answers request reply) (memory : Memory) :
    (Writer.wait function request memory).run (Reader.response reply) =
      some (.inr reply, [], []) := by
  cases request with
  | syscall page number data small =>
      cases reply with
      | syscall code =>
          rw [Reader.response, wait_other .syscallResponse nofun]
          simp only [Writer.response, if_true, ne_eq, not_true_eq_false,
            if_false]
          rw [Process.run_receive_all (length_encode 8 code), decode_address]
          rfl
      | _ => cases answers
  | sync =>
      cases reply with
      | sync mode =>
          rw [Reader.response, wait_other .syncResponse nofun]
          simp only [Writer.response, if_true, ne_eq, not_true_eq_false,
            if_false]
          rw [Process.run_receive_all (length_encode 4 mode), decode_word]
          rfl
      | _ => cases answers
  | magic a b c =>
      cases reply with
      | magic result =>
          rw [Reader.response, wait_other .magicInstructionResponse nofun]
          simp only [Writer.response, if_true, ne_eq, not_true_eq_false,
            if_false]
          rw [Process.run_receive_all (length_encode 8 result),
            decode_address]
          rfl
      | _ => cases answers
  | emulate type argument =>
      cases reply with
      | emulate handled reply =>
          have size : (49 : BitVec 32).toNat = 49 := rfl
          have flag : [if handled then (1 : Byte) else 0].length = 1 := rfl
          rw [Reader.response, wait_other .emuResponse nofun, ← List.singleton_append]
          simp only [Writer.response, if_true, size, Nat.lt_irrefl, if_false]
          rw [Process.run_receive_append flag,
            Process.run_receive_all (length_encode 48 reply), decode_reply]
          cases handled <;> rfl
      | _ => cases answers

end ChipletSniper.Sift
