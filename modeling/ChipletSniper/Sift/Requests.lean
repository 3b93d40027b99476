import ChipletSniper.Sift.LockStep

/-!
# Whole calls

A call of the writer, with the reader that serves it: in whatever order the
two take their steps, the call returns what the callback answered.
-/

namespace ChipletSniper.Sift

open Library Library.Duplex

variable {Memory : Type*} {function : Option (MemoryFunction Memory)}
  {callbacks : Callbacks} {request : Request} {memory : Memory}

/-- The writer before the call, and the reader before its next record. -/
def start (callbacks : Callbacks) (request : Request) (memory : Memory) :
    Duplex Memory Answer Unit Answer :=
  ⟨Writer.call request memory, Reader.read callbacks (), [], []⟩

/-- Both sides are done with the request, and nothing is left in the streams. -/
def final (answer : Answer) : Duplex Memory Answer Unit Answer :=
  ⟨.done (.inr answer), .done (.inr answer), [], []⟩

theorem halted_final (answer : Answer) :
    Halted (Writer.wait function request) (Reader.read callbacks)
      (final answer) := by
  intro next step
  rcases step with left | right
  · cases left
  · cases right

/-! ## From the request to the response -/

/-- The callback and the writer's loop together. -/
theorem reaches_served {service : Service Answer} {reply : Answer}
    (served : AllServed function memory service)
    (replied : (direct function memory service).2 = reply)
    (answers : Answers request reply) :
    Reaches (Writer.wait function request) (Reader.read callbacks)
      ⟨.done (.inl memory), Reader.serve service, [], []⟩ (final reply) := by
  induction service generalizing memory with
  | respond value =>
      obtain rfl : value = reply := replied
      exact .head (.inr rfl) (.head (.inl rfl)
        (reaches_left_done (wait_response answers memory) _ []))
  | access call next ih =>
      obtain ⟨this, others⟩ := served
      have inStep : Exchange function request memory call :=
        exchange_iff.mpr this
      obtain ⟨bytes, waited, returned, _⟩ := inStep
      have onwards := ih _ others replied
      refine .head (.inr rfl) (.head (.inl rfl)
        ((reaches_left_done waited _ []).trans ?_))
      exact (reaches_right returned _ _ []).trans onwards

/-! ## The request -/

/-- The reader receives the header of a record. -/
theorem reaches_record {type : RecordType} {size : BitVec 32}
    {process : Process (Memory ⊕ Answer)} {rest : List Byte}
    {last : Duplex Memory Answer Unit Answer}
    (later : Reaches (Writer.wait function request) (Reader.read callbacks)
      ⟨process, Reader.readRecord callbacks type.code size, [], rest⟩ last) :
    Reaches (Writer.wait function request) (Reader.read callbacks)
      ⟨process, Reader.read callbacks (), [],
        (other type size).bytes ++ rest⟩ last := by
  refine .receive_right (length_header _) ?_
  rw [ofBytes_header]
  exact later

/-- The reader skips the record of a physical page. -/
theorem reaches_page (page : Option (BitVec 64 × BitVec 64))
    (process : Process (Memory ⊕ Answer)) (rest : List Byte) :
    Reaches (Writer.wait function request) (Reader.read callbacks)
      ⟨process, Reader.read callbacks (), [],
        page.elim [] Writer.pageRecord ++ rest⟩
      ⟨process, Reader.read callbacks (), [], rest⟩ := by
  cases page with
  | none => exact .refl _
  | some page =>
      have length : (encode 8 page.1 ++ encode 8 page.2).length = 16 := by
        rw [List.length_append, length_encode, length_encode]
      simp only [Option.elim, Writer.pageRecord, List.append_assoc]
      rw [← List.append_assoc (encode 8 page.1)]
      exact reaches_record (.receive_right length (.head (.inr rfl) (.refl _)))

/-- The requests that the reader accepts: a system call carries some bytes,
which fit into one record with its number. -/
def RequestFits : Request → Prop
  | .syscall _ _ data _ => data ≠ [] ∧ data.length + 2 < 2 ^ 32
  | _ => True

/-- The size that is written for a system call. -/
theorem syscall_size {data : List Byte} (small : data.length < 2 ^ 32) :
    ¬ (2 + BitVec.ofNat 32 data.length).toNat ≤ 2 ↔
      data ≠ [] ∧ data.length + 2 < 2 ^ 32 := by
  rw [← List.length_pos_iff, BitVec.toNat_add, BitVec.toNat_ofNat,
    Nat.mod_eq_of_lt small]
  have two : (2 : BitVec 32).toNat = 2 := rfl
  rw [two]
  omega

/-- The reader gets the request that the writer sent. -/
theorem reaches_request (fits : RequestFits request) :
    Reaches (Writer.wait function request) (Reader.read callbacks)
      (start callbacks request memory)
      ⟨.done (.inl memory), Reader.serve (Reader.service callbacks request),
        [], []⟩ := by
  refine .head (.inl rfl) ?_
  cases request with
  | syscall page number data small =>
      refine (reaches_page page _ _).trans (reaches_record ?_)
      have payload : (2 + BitVec.ofNat 32 data.length - 2).toNat =
          data.length := by
        have cancelled : 2 + BitVec.ofNat 32 data.length - 2 =
            BitVec.ofNat 32 data.length := by
          bv_omega
        rw [cancelled, BitVec.toNat_ofNat, Nat.mod_eq_of_lt small]
      simp only [Reader.readRecord, if_true, (syscall_size small).mpr fits,
        if_false, payload]
      refine .receive_right (length_encode 2 number)
        (.receive_right_all rfl ?_)
      rw [decode_encode (by decide)]
      exact .refl _
  | sync =>
      refine reaches_record ?_
      exact .refl _
  | magic a b c =>
      refine reaches_record ?_
      refine .receive_right (length_encode 8 a)
        (.receive_right (length_encode 8 b)
          (.receive_right_all (length_encode 8 c) ?_))
      rw [decode_address, decode_address, decode_address]
      exact .refl _
  | emulate type argument =>
      refine reaches_record ?_
      refine .receive_right (length_encode 2 type)
        (.receive_right_all (length_encode 8 argument) ?_)
      rw [decode_address, decode_encode (by decide)]
      exact .refl _

/-- Any other system call stops the reader, and the writer waits. -/
theorem reaches_abort (unfit : ¬ RequestFits request) :
    ∃ rest, Reaches (Writer.wait function request) (Reader.read callbacks)
      (start callbacks request memory)
      ⟨Writer.wait function request memory, .abort, [], rest⟩ := by
  cases request with
  | syscall page number data small =>
      have short : (2 + BitVec.ofNat 32 data.length).toNat ≤ 2 := by
        by_contra long
        exact unfit ((syscall_size small).mp long)
      refine ⟨encode 2 number ++ data ++ [], .head (.inl rfl) ?_⟩
      refine (reaches_page page _ _).trans (reaches_record ?_)
      simp only [Reader.readRecord, if_true, short]
      exact .head (.inl rfl) (.refl _)
  | sync => exact absurd trivial unfit
  | magic a b c => exact absurd trivial unfit
  | emulate type argument => exact absurd trivial unfit

/-! ## Whole calls -/

variable (function callbacks request memory)

/-- In whatever order the two sides take their steps, they come to the end of
the call after the same number of steps, and the call returns what the callback
answered. -/
def Completes : Prop :=
  ∃ total, ∀ taken state,
    Steps (Writer.wait function request) (Reader.read callbacks) taken
        (start callbacks request memory) state →
      ∃ left, total = taken + left ∧
        Steps (Writer.wait function request) (Reader.read callbacks) left
          state
          (final (direct function memory (Reader.service callbacks request)).2)

/-- Each access is answered by one response of its own, and the call returns. -/
def LockStep : Prop :=
  InStep function request memory (Reader.service callbacks request) ∧
    Completes function callbacks request memory

variable {function callbacks request memory}

theorem completes (fits : RequestFits request)
    (served : AllServed function memory (Reader.service callbacks request)) :
    Completes function callbacks request memory := by
  have finished : Reaches (Writer.wait function request)
      (Reader.read callbacks)
      ⟨.done (.inl memory), Reader.serve (Reader.service callbacks request),
        [], []⟩ _ :=
    reaches_served served rfl (answers_service callbacks request memory)
  obtain ⟨total, run⟩ := (reaches_request fits).trans finished
  exact ⟨total, fun taken state other => run.ends (halted_final _) other⟩

/-- A call whose request the reader does not accept never returns. -/
theorem fits_of_completes
    (complete : Completes function callbacks request memory) :
    RequestFits request := by
  by_contra unfit
  have aborts : ∃ rest, Reaches (Writer.wait function request)
      (Reader.read callbacks) (start callbacks request memory)
      ⟨Writer.wait function request memory, .abort, [], rest⟩ :=
    reaches_abort unfit
  obtain ⟨rest, taken, stuck⟩ := aborts
  obtain ⟨total, ends⟩ := complete
  obtain ⟨left, _, onwards⟩ := ends _ _ stuck
  cases onwards with
  | head step later =>
      rcases step with waiting | aborted
      · cases waiting
      · cases aborted

/-- A call is in lock step exactly if the reader accepts the request and every
access of the callback reads or writes at least one byte, with a memory
function set and a write that fits into one record. -/
theorem lockStep_iff :
    LockStep function callbacks request memory ↔
      RequestFits request ∧
        AllServed function memory (Reader.service callbacks request) := by
  constructor
  · rintro ⟨inStep, complete⟩
    exact ⟨fits_of_completes complete, inStep_iff.mp inStep⟩
  · rintro ⟨fits, served⟩
    exact ⟨inStep_iff.mpr served, completes fits served⟩

/-- A memory function that changes nothing. -/
def unchanged : MemoryFunction Unit where
  access := fun memory _ _ _ buffer => (memory, buffer)
  length_access := rfl

/-- A read of no bytes. -/
def emptyRead : MemoryCall :=
  ⟨0, memRead, 4096, [], by decide⟩

/-- A reader whose callback for magic instructions makes this access. -/
def readsNothing : Callbacks where
  syscall := fun _ _ => .respond 0
  count := none
  magic := some fun _ _ _ => .access emptyRead fun _ => .respond 7
  emulate := none

/-- The writer consumes a read of no bytes and sends nothing. -/
theorem empty_read_unanswered :
    (Writer.wait (some unchanged) (.magic 1 2 3) ()).run
        (Reader.memoryRequest emptyRead) = some (.inl (), [], []) ∧
      ¬ LockStep (some unchanged) readsNothing (.magic 1 2 3) () := by
  refine ⟨rfl, ?_⟩
  rintro ⟨inStep, _⟩
  obtain ⟨⟨_, filled, _⟩, _⟩ := inStep_iff.mp inStep
  exact filled rfl

end ChipletSniper.Sift
