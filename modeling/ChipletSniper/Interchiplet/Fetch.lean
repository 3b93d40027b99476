import ChipletSniper.Interchiplet.PortTables
import ChipletSniper.Interchiplet.System

/-!
# Fetching a message

`readMsg` fetches messages until one for its port arrives, and then takes the
front of the port's buffer.  The fetch compares the port of the destination
alone, while the buffer takes only messages of its one remote port.
-/

namespace ChipletSniper.Interchiplet

/-- The turn brings a message for the port. -/
def Turn.isFor (localPort : Int) : Turn → Bool
  | .sendFailed => false
  | .message msg => msg.desPort == localPort

/-- The messages are all for this chiplet. -/
def AddressedTo (subnetId : Int) (turns : List Turn) : Prop :=
  ∀ msg, .message msg ∈ turns → msg.desAddr = subnetId

/-- The turns in front of the first message for the port. -/
def beforePort (localPort : Int) (turns : List Turn) : List Turn :=
  turns.takeWhile fun turn => !turn.isFor localPort

/-- There is nothing to fetch, or a line cannot be sent. -/
def FetchFails (localPort : Int) (turns : List Turn) : Prop :=
  turns = [] ∨ .sendFailed ∈ beforePort localPort turns

/-- The first message for the port is one of the connection. -/
def FetchMeets (localPort : Int) (conn : SConnection) (turns : List Turn) :
    Prop :=
  ∃ msg, turns.find? (Turn.isFor localPort) = some (.message msg) ∧
    isCorrectMsg conn msg = true

/-- The port has something to read. -/
def Recorder.Readable (recorder : Recorder) (localPort : Int) : Prop :=
  ∃ conn, recorder.bufMap localPort = some conn ∧ conn.msgs ≠ []

/-! ## One message -/

namespace Recorder

variable {recorder : Recorder} {localPort : Int} {conn : SConnection}
variable {msg : SMsg}

@[simp]
theorem classify_subnetId (recorder : Recorder) (msg : SMsg) :
    (recorder.classify msg).subnetId = recorder.subnetId := by
  unfold classify
  split
  · split <;> rfl
  · rfl

/-- A message for another port leaves the buffer alone. -/
theorem classify_other (recorder : Recorder) (other : msg.desPort ≠ localPort) :
    (recorder.classify msg).bufMap localPort = recorder.bufMap localPort := by
  unfold classify
  split
  · split
    · exact Function.update_of_ne (Ne.symm other) _ _
    · rfl
  · rfl

/-- A message for the port is buffered when it comes from the remote port of
the connection. -/
theorem classify_port (isOpen : recorder.bufMap localPort = some conn)
    (port : msg.desPort = localPort) :
    (recorder.classify msg).bufMap localPort =
      some (if isCorrectMsg conn msg then
        { conn with msgs := conn.msgs ++ [msg] } else conn) := by
  subst port
  unfold classify
  simp only [isOpen]
  split_ifs
  · exact Function.update_self _ _ _
  · exact isOpen

end Recorder

/-- A turn of the fetch in the system of all chiplets is a turn of the
loop. -/
theorem Chiplet.fetch_readMsgUntil {chiplet next : Chiplet}
    {localPort cnt : Int} {msg : SMsg} {rest : List Reply}
    {later : List Turn}
    (reading : chiplet.call = .reading localPort)
    (front : chiplet.toRecorder = .message msg :: rest)
    (other : msg.desPort ≠ localPort)
    (taken : chiplet.fetch = some next) :
    Recorder.readMsgUntil localPort cnt (.message msg :: later)
        chiplet.recorder =
      Recorder.readMsgUntil localPort
        (if msg.desAddr = chiplet.recorder.subnetId then cnt + 1 else cnt)
        later next.recorder := by
  simp only [Chiplet.fetch, reading, front, if_neg other] at taken
  simp only [Recorder.readMsgUntil, if_neg other]
  split_ifs at taken ⊢ <;> cases taken <;> rfl

/-! ## The whole fetch -/

namespace Recorder

variable {recorder : Recorder} {localPort : Int} {conn : SConnection}
variable {turns : List Turn}

/-- The loop from any count: whether it returns a positive one, and what it
leaves in the buffer of the port. -/
theorem readMsgUntil_spec (isOpen : recorder.bufMap localPort = some conn)
    (addressed : AddressedTo recorder.subnetId turns)
    {cnt : Int} (counted : 0 ≤ cnt) :
    let read := readMsgUntil localPort cnt turns recorder
    (0 < read.1 ↔ (turns = [] → 0 < cnt) ∧
        .sendFailed ∉ beforePort localPort turns) ∧
      (.sendFailed ∉ beforePort localPort turns →
        ∃ found, read.2.bufMap localPort = some found ∧
          (found.msgs ≠ [] ↔
            conn.msgs ≠ [] ∨ FetchMeets localPort conn turns)) := by
  induction turns generalizing recorder cnt with
  | nil => simp [readMsgUntil, beforePort, FetchMeets, isOpen]
  | cons turn rest ih =>
      cases turn with
      | sendFailed => simp [readMsgUntil, beforePort, Turn.isFor]
      | message msg =>
          have here : msg.desAddr = recorder.subnetId :=
            addressed msg (List.mem_cons_self ..)
          by_cases port : msg.desPort = localPort
          · have after := classify_port isOpen port
            have positive : 0 < cnt + 1 := by omega
            simp only [readMsgUntil, here, port, if_true, beforePort,
              List.takeWhile_cons, Turn.isFor, beq_self_eq_true, Bool.not_true,
              Bool.false_eq_true, if_false, List.not_mem_nil, not_false_iff,
              and_true, FetchMeets, List.find?_cons, Option.some.injEq,
              Turn.message.injEq, exists_eq_left', after, positive,
              reduceCtorEq, true_implies, false_implies, true_and]
            split_ifs with correct <;> simp [correct]
          · have after := classify_other recorder port
            have unequal : (msg.desPort == localPort) = false := by
              simpa using port
            have restHere :
                AddressedTo (recorder.classify msg).subnetId rest := by
              intro other member
              rw [classify_subnetId]
              exact addressed other (List.mem_cons_of_mem _ member)
            obtain ⟨returned, left⟩ :=
              ih (after.trans isOpen) restHere
                (show 0 ≤ cnt + 1 by omega)
            have positive : rest = [] → 0 < cnt + 1 := fun _ => by omega
            simp only [readMsgUntil, here, port, if_true, if_false]
            simp only [beforePort, FetchMeets, List.takeWhile_cons,
              List.find?_cons, Turn.isFor, unequal, Bool.not_false, if_true,
              List.mem_cons, reduceCtorEq, false_or, false_implies, true_and]
            refine ⟨returned.trans ?_, left⟩
            exact ⟨fun both => both.2, fun all => ⟨positive, all⟩⟩

/-- The count is positive unless the fetch fails, and then the buffer of the
port is as the first message for it decides. -/
theorem readMsgUntil_zero_spec
    (isOpen : recorder.bufMap localPort = some conn)
    (addressed : AddressedTo recorder.subnetId turns) :
    let read := readMsgUntil localPort 0 turns recorder
    (0 < read.1 ↔ ¬ FetchFails localPort turns) ∧
      (¬ FetchFails localPort turns →
        ∃ found, read.2.bufMap localPort = some found ∧
          (found.msgs ≠ [] ↔
            conn.msgs ≠ [] ∨ FetchMeets localPort conn turns)) := by
  obtain ⟨returned, left⟩ :=
    readMsgUntil_spec isOpen addressed (le_refl (0 : Int))
  have fails : ¬ FetchFails localPort turns ↔
      (turns = [] → (0 : Int) < 0) ∧
        .sendFailed ∉ beforePort localPort turns := by
    simp [FetchFails]
  exact ⟨returned.trans fails.symm, fun succeeds => left (fails.mp succeeds).2⟩

end Recorder

/-- A fetch that returns a positive count leaves something to read, and
`readMsg` finds a front, exactly if the port had a message before, the fetch
fails, or the first message for the port comes from the remote port of the
connection. -/
theorem fetch_leaves_message_iff {recorder : Recorder} {localPort : Int}
    {conn : SConnection} {turns : List Turn}
    (isOpen : recorder.bufMap localPort = some conn)
    (addressed : AddressedTo recorder.subnetId turns) :
    ((0 < (Recorder.readMsgUntil localPort 0 turns recorder).1 →
        (Recorder.readMsgUntil localPort 0 turns recorder).2.Readable
          localPort) ↔
      conn.msgs ≠ [] ∨ FetchFails localPort turns ∨
        FetchMeets localPort conn turns) ∧
    ((recorder.readMsg localPort turns).1 ≠ some none ↔
      conn.msgs ≠ [] ∨ FetchFails localPort turns ∨
        FetchMeets localPort conn turns) := by
  obtain ⟨returned, left⟩ := Recorder.readMsgUntil_zero_spec isOpen addressed
  by_cases fails : FetchFails localPort turns
  · have none : ¬ 0 < (Recorder.readMsgUntil localPort 0 turns recorder).1 :=
      fun positive => returned.mp positive fails
    refine ⟨by simp [fails, none], ?_⟩
    simp only [fails, true_or, or_true, iff_true, Recorder.readMsg, isOpen]
    by_cases empty : conn.msgs = []
    · simp [empty, Int.not_lt.mp none]
    · obtain ⟨first, rest, shape⟩ := List.exists_cons_of_ne_nil empty
      simp [Recorder.popFront, shape]
  · have positive := returned.mpr fails
    obtain ⟨found, lookup, message⟩ := left fails
    simp only [fails, false_or]
    rw [← message]
    constructor
    · simp [positive, Recorder.Readable, lookup]
    · by_cases empty : conn.msgs = []
      · simp only [Recorder.readMsg, isOpen, empty, if_true,
          Int.not_le.mpr positive, if_false, lookup]
        cases shape : found.msgs <;> simp [Recorder.popFront, shape]
      · obtain ⟨first, rest, shape⟩ := List.exists_cons_of_ne_nil empty
        have some := message.mpr (Or.inl empty)
        simp [Recorder.readMsg, isOpen, Recorder.popFront, shape, some]

/-- Port 5 of chiplet 0 is connected to port 7 of chiplet 1. -/
def crossedRecorder : Recorder :=
  ((Recorder.start 0).connectInter 5 1 7).2

/-- A message for port 5 from some port of chiplet 1. -/
def messageFrom (srcPort : Int) : Turn :=
  .message ⟨1, srcPort, 0, 5, 3⟩

/-- The first message for the port comes from the connected port. -/
theorem fetch_leaves_message_first :
    ((0 < (Recorder.readMsgUntil 5 0 [messageFrom 7, messageFrom 8]
          crossedRecorder).1 →
        (Recorder.readMsgUntil 5 0 [messageFrom 7, messageFrom 8]
          crossedRecorder).2.Readable 5) ↔
      ([] : List SMsg) ≠ [] ∨
        FetchFails 5 [messageFrom 7, messageFrom 8] ∨
        FetchMeets 5 ⟨0, 5, 1, 7, []⟩ [messageFrom 7, messageFrom 8]) ∧
    ((crossedRecorder.readMsg 5 [messageFrom 7, messageFrom 8]).1 ≠
        some none ↔
      ([] : List SMsg) ≠ [] ∨
        FetchFails 5 [messageFrom 7, messageFrom 8] ∨
        FetchMeets 5 ⟨0, 5, 1, 7, []⟩ [messageFrom 7, messageFrom 8]) :=
  fetch_leaves_message_iff
    (show crossedRecorder.bufMap 5 = some ⟨0, 5, 1, 7, []⟩ from rfl) (by
      intro msg member
      simp only [messageFrom, List.mem_cons, Turn.message.injEq,
        List.not_mem_nil, or_false] at member
      rcases member with rfl | rfl <;> rfl)

/-- The fetch counts the message of the other port, and the buffer stays
empty. -/
theorem crossed_fetch_leaves_nothing :
    (Recorder.readMsgUntil 5 0 [messageFrom 8] crossedRecorder).1 = 1 ∧
      ¬ (Recorder.readMsgUntil 5 0 [messageFrom 8]
        crossedRecorder).2.Readable 5 ∧
      (crossedRecorder.readMsg 5 [messageFrom 8]).1 = some none := by
  refine ⟨by decide, ?_, by decide⟩
  rintro ⟨conn, isOpen, nonempty⟩
  have empty : (Recorder.readMsgUntil 5 0 [messageFrom 8]
      crossedRecorder).2.bufMap 5 = some ⟨0, 5, 1, 7, []⟩ := by
    decide
  rw [empty] at isOpen
  exact nonempty (Option.some.inj isOpen ▸ rfl)

end ChipletSniper.Interchiplet
